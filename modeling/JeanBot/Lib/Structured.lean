/-
# Structured code of two threads

A thread is written as the body of its `while (1)`, a list of statements.  A statement
makes one access to the variables of type `S`, which may read an input of type `I`, and
its value chooses the statements that come next, or it is a loop.  `codeStep` executes the
first statement of what is left to do and starts the body again when nothing is left.

`codeThreads` is the preemptive schedule of two such threads.  A machine with program
counters computes what the code computes when each counter stands for the statements that
are left: then the two do the same under every schedule (`codeThreads_foldlM`).
-/

import JeanBot.Lib.Transition

namespace JeanBot
namespace Lib

/-- A statement over the variables `S` that reads `I` from outside.  An access may fail, and
it may be a call in which the thread blocks. -/
inductive Stmt (S I : Type) : Type 1
  | access {V : Type} (blocking : Bool) (f : S → I → Option (V × S)) (next : V → List (Stmt S I))
  | loop (c : S → I → Bool) (body : List (Stmt S I))

variable {S I : Type}

/-- An access that changes the variables. -/
def Stmt.set (f : S → I → S) : Stmt S I := .access false (fun s i => some ((), f s i)) fun _ => []

/-- A call in which the thread blocks. -/
def Stmt.block (f : S → I → S) : Stmt S I := .access true (fun s i => some ((), f s i)) fun _ => []

/-- An access that reads a value. -/
def Stmt.read {V : Type} (f : S → I → Option V) (next : V → List (Stmt S I)) : Stmt S I :=
  .access false (fun s i => (f s i).map fun v => (v, s)) next

/-- A conditional. -/
def Stmt.ite (c : S → I → Bool) (p q : List (Stmt S I)) : Stmt S I :=
  .read (fun s i => some (c s i)) fun b => if b then p else q

/-- What is left to do, or the body again. -/
def again (body : List (Stmt S I)) : List (Stmt S I) → List (Stmt S I)
  | [] => body
  | c :: k => c :: k

/-- One step of a thread with the statements `k` left to do. -/
def codeStep (body k : List (Stmt S I)) (s : S) (i : I) : Option (List (Stmt S I) × S) :=
  match k with
  | [] => none
  | .access _ f next :: k => (f s i).map fun x => (again body (next x.1 ++ k), x.2)
  | .loop c p :: k => some (again body (if c s i then p ++ .loop c p :: k else k), s)

section Step

variable {body p q k : List (Stmt S I)} {c : S → I → Bool} {s : S} {i : I}

/-- A conditional whose condition holds puts its first branch in front of what is left. -/
theorem codeStep_ite_of_true (h : c s i = true) :
    codeStep body (.ite c p q :: k) s i = some (again body (p ++ k), s) := by
  simp [codeStep, Stmt.ite, Stmt.read, h]

/-- A conditional whose condition fails puts its second branch in front of what is left. -/
theorem codeStep_ite_of_false (h : c s i = false) :
    codeStep body (.ite c p q :: k) s i = some (again body (q ++ k), s) := by
  simp [codeStep, Stmt.ite, Stmt.read, h]

/-- A loop whose condition holds puts its body in front of itself. -/
theorem codeStep_loop_of_true (h : c s i = true) :
    codeStep body (.loop c p :: k) s i = some (again body (p ++ .loop c p :: k), s) := by
  simp [codeStep, h]

/-- A loop whose condition fails is left. -/
theorem codeStep_loop_of_false (h : c s i = false) :
    codeStep body (.loop c p :: k) s i = some (again body k, s) := by
  simp [codeStep, h]

/-- A statement that reads a value leaves the variables as they are, and the value chooses what
comes next.  Where there is nothing to read, the step fails. -/
theorem codeStep_read {V : Type} {f : S → I → Option V} {next : V → List (Stmt S I)} :
    codeStep body (.read f next :: k) s i =
      (f s i).map fun v => (again body (next v ++ k), s) := by
  simp [codeStep, Stmt.read, Function.comp_def]

end Step

/-- The first statement is a call in which the thread blocks. -/
def codeBlocked : List (Stmt S I) → Bool
  | .access blocking _ _ :: _ => blocking
  | _ => false

/-- The variables and what the threads have left to do. -/
structure Coded (S I : Type) where
  vars : S
  high : List (Stmt S I)
  low : List (Stmt S I)

/-- Two threads, given by the bodies of their loops. -/
def codeThreads (highBody lowBody : List (Stmt S I)) : Threads (Coded S I) I where
  high c i := (codeStep highBody c.high c.vars i).map fun x => { c with high := x.1, vars := x.2 }
  low c i := (codeStep lowBody c.low c.vars i).map fun x => { c with low := x.1, vars := x.2 }
  blocked c := codeBlocked c.high

/-- **A machine whose program counters stand for the statements left computes the code**, under
every schedule: it is enough to compare the steps of each thread, and that neither moves the
program counter of the other. -/
theorem codeThreads_foldlM {M : Type} {T : Threads M I} {vars : M → S}
    {high low : M → List (Stmt S I)} {highBody lowBody : List (Stmt S I)}
    (hblocked : ∀ m, codeBlocked (high m) = T.blocked m)
    (hhigh : ∀ m i, codeStep highBody (high m) (vars m) i =
      (T.high m i).map fun u => (high u, vars u))
    (hhigh_low : ∀ m i u, T.high m i = some u → low u = low m)
    (hlow : ∀ m i, codeStep lowBody (low m) (vars m) i =
      (T.low m i).map fun u => (low u, vars u))
    (hlow_high : ∀ m i u, T.low m i = some u → high u = high m)
    (as : List (Priority × I)) (m : M) :
    as.foldlM (codeThreads highBody lowBody).step ⟨vars m, high m, low m⟩ =
      (as.foldlM T.step m).map fun u => ⟨vars u, high u, low u⟩ := by
  have hstep : ∀ (m : M) (a : Priority × I),
      (codeThreads highBody lowBody).step ⟨vars m, high m, low m⟩ a =
        (T.step m a).map fun u => ⟨vars u, high u, low u⟩ := by
    rintro m ⟨p, i⟩
    cases p with
    | high =>
      show (codeStep highBody (high m) (vars m) i).map _ = (T.high m i).map _
      rw [hhigh, Option.map_map]
      refine Option.map_congr fun u hu => ?_
      rw [Function.comp_apply, hhigh_low m i u hu]
    | low =>
      show (if codeBlocked (high m) then _ else none) =
        (if T.blocked m then T.low m i else none).map _
      rw [hblocked]
      split_ifs
      · show (codeStep lowBody (low m) (vars m) i).map _ = (T.low m i).map _
        rw [hlow m i, Option.map_map]
        refine Option.map_congr fun u hu => ?_
        rw [Function.comp_apply, hlow_high m i u hu]
      · rfl
  induction as generalizing m with
  | nil => rfl
  | cons a as ih =>
    rw [List.foldlM_cons, List.foldlM_cons, hstep]
    cases hm : T.step m a with
    | none => rfl
    | some u => exact ih u

end Lib
end JeanBot
