/-
# Commands to a device between the steps of a thread

A model of two threads often leaves out the statements that only command a device, such
as its lamps.  `Threads.commanding` puts them back: a step of the high thread from `s` to
`u` leaves the commands `cmds s u` to be executed, one a step, before its next step, and
the low thread runs only when none is left.

The device does not act back on the threads: every run of the threads with the device is
one of the threads, and every run of the threads has the device along
(`commanding_reaches_iff`).  `commanding_settled` is the invariant rule for the device:
if what a step commands takes the device from `f s` to `f u`, then the device is `f` of
the state whenever no command is left.
-/

import JeanBot.Lib.Transition

namespace JeanBot
namespace Lib

variable {S I L K : Type*}

/-- A state of the threads, one of the device, and the commands that are still to be
executed. -/
structure Commanded (S L K : Type*) where
  state : S
  device : L
  todo : List K

/-- The device after the commands. -/
def executed (exec : K → L → L) (d : L) (ks : List K) : L := ks.foldl (fun d k => exec k d) d

/-- The device when all commands have been executed. -/
def Commanded.settled (exec : K → L → L) (c : Commanded S L K) : L :=
  executed exec c.device c.todo

/-- The threads with the commands that the steps of the high one leave. -/
def Threads.commanding (T : Threads S I) (exec : K → L → L) (cmds : S → S → List K) :
    Threads (Commanded S L K) I where
  high c i := match c.todo with
    | k :: ks => some { c with device := exec k c.device, todo := ks }
    | [] => (T.high c.state i).map fun u => { c with state := u, todo := cmds c.state u }
  low c i := (T.low c.state i).map fun u => { c with state := u }
  blocked c := T.blocked c.state && c.todo.isEmpty

variable {T : Threads S I} {exec : K → L → L} {cmds : S → S → List K}
  {c e : Commanded S L K} {tr : List (Commanded S L K × (Priority × I))}

/-- What one step of the threads with the device can be: the high thread executes the command
that is next, or a thread makes a step of its own while no command is left, and the high one
then has those of its step to execute. -/
theorem commanding_cases {a : Priority × I} (h : (T.commanding exec cmds).step c a = some e) :
    (∃ k ks, c.todo = k :: ks ∧ e = { c with device := exec k c.device, todo := ks }) ∨
      T.step c.state a = some e.state ∧ c.todo = [] ∧ e.device = c.device ∧
        (a.1 = .high ∧ e.todo = cmds c.state e.state ∨ a.1 = .low ∧ e.todo = []) := by
  obtain ⟨i, rfl, hi⟩ | ⟨i, rfl, hb, hi⟩ := Threads.step_cases h
  · simp only [Threads.commanding] at hi
    split at hi
    · exact Or.inl ⟨_, _, ‹_›, (Option.some.inj hi).symm⟩
    · obtain ⟨u, hu, rfl⟩ := Option.map_eq_some_iff.1 hi
      exact Or.inr ⟨hu, ‹_›, rfl, Or.inl ⟨rfl, rfl⟩⟩
  · obtain ⟨hb, htodo⟩ := Bool.and_eq_true_iff.1 hb
    obtain ⟨u, hu, rfl⟩ := Option.map_eq_some_iff.1 hi
    have hnil := List.isEmpty_iff.1 htodo
    exact Or.inr ⟨(if_pos hb).trans hu, hnil, rfl, Or.inr ⟨rfl, hnil⟩⟩

/-- The commands that are left can be executed one after the other, with nothing between them.
-/
theorem commanding_flush (i : I) (s : S) (d : L) (ks : List K) :
    ∃ tr, Run (T.commanding exec cmds).step ⟨s, d, ks⟩ tr ⟨s, executed exec d ks, []⟩ := by
  induction ks generalizing d with
  | nil => exact ⟨[], .nil⟩
  | cons k ks ih =>
    obtain ⟨tr, h⟩ := ih (exec k d)
    have hfirst : (T.commanding exec cmds).step ⟨s, d, k :: ks⟩ (.high, i) =
      some ⟨s, exec k d, ks⟩ := rfl
    exact ⟨_, (Run.snoc .nil hfirst).trans h⟩

/-- **The device does not act back**: the threads with it reach, with no command left, the
states that the threads reach.  So what is proved about the threads holds of their states with
the device. -/
theorem commanding_reaches_iff (s t : S) (d : L) :
    (∃ tr d', Run (T.commanding exec cmds).step ⟨s, d, []⟩ tr ⟨t, d', []⟩) ↔
      ∃ tr, Run T.step s tr t := by
  constructor
  · rintro ⟨tr, d', h⟩
    refine h.refines (f := Commanded.state) fun c a e hs => ?_
    rcases commanding_cases hs with ⟨k, ks, -, rfl⟩ | ⟨hstep, -⟩
    · exact Or.inl rfl
    · exact Or.inr ⟨a, hstep⟩
  · rintro ⟨tr, h⟩
    induction h with
    | nil => exact ⟨[], d, .nil⟩
    | @snoc tr t a u _ hs ih =>
      obtain ⟨tr', d', ih⟩ := ih
      obtain ⟨i, rfl, hi⟩ | ⟨i, rfl, hb, hi⟩ := Threads.step_cases hs
      · have hstep : (T.commanding exec cmds).step ⟨t, d', []⟩ (.high, i) =
            some ⟨u, d', cmds t u⟩ := congrArg (Option.map _) hi
        obtain ⟨tr'', hflush⟩ : ∃ tr'', Run (T.commanding exec cmds).step ⟨u, d', cmds t u⟩ tr''
            ⟨u, executed exec d' (cmds t u), []⟩ := commanding_flush i u d' _
        exact ⟨_, _, (ih.snoc hstep).trans hflush⟩
      · have hstep : (T.commanding exec cmds).step ⟨t, d', []⟩ (.low, i) = some ⟨u, d', []⟩ := by
          have hb' : (T.commanding exec cmds).blocked ⟨t, d', []⟩ = true := by
            simp [Threads.commanding, hb]
          exact (if_pos hb').trans (congrArg (Option.map _) hi)
        exact ⟨_, _, ih.snoc hstep⟩

/-- **The invariant rule for the device.**  If the commands of each step take what the device
should show before it to what it should show after it, the commands that are left always lead to
what the state asks for. -/
theorem commanding_settled {P : S → Prop} {f : S → L}
    (h : Run (T.commanding exec cmds).step c tr e) (h₀ : P c.state)
    (hf : c.settled exec = f c.state)
    (hP : ∀ s a u, P s → T.step s a = some u → P u)
    (hhigh : ∀ s i u, P s → T.step s (.high, i) = some u → executed exec (f s) (cmds s u) = f u)
    (hlow : ∀ s i u, P s → T.step s (.low, i) = some u → f u = f s) :
    P e.state ∧ e.settled exec = f e.state := by
  refine h.invariant (P := fun e => P e.state ∧ e.settled exec = f e.state)
    (C := fun _ _ => True) (fun _ _ => trivial) ⟨h₀, hf⟩ ?_
  rintro c a e ⟨hPc, hc⟩ - hs
  rcases commanding_cases hs with ⟨k, ks, htodo, rfl⟩ | ⟨hstep, htodo, hdev, hrest⟩
  · rw [Commanded.settled, htodo] at hc
    exact ⟨hPc, hc⟩
  · refine ⟨hP _ _ _ hPc hstep, ?_⟩
    obtain ⟨p, i⟩ := a
    rw [Commanded.settled, htodo] at hc
    have hdev' : c.device = f c.state := hc
    rcases hrest with ⟨rfl, hcmds⟩ | ⟨rfl, hnil⟩
    · rw [Commanded.settled, hdev, hcmds, hdev', hhigh _ _ _ hPc hstep]
    · rw [Commanded.settled, hdev, hnil, hdev', hlow _ _ _ hPc hstep]
      rfl

end Lib
end JeanBot
