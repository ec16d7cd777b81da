import Mathlib.Tactic.Common

/-!
# Prog — programs that call their environment

A program over operations `Op` either is done or performs an operation `o` and continues with the
answer, a value of `Ans o`.  Nothing is said about how operations are answered: a `Handler` answers
them from a state, and `run` / `trace` give the result, the final state and the exchanges in order.
The same program can be read under several handlers, or one exchange at a time.
-/

namespace InfraDemo

/-- Programs over the operations `Op`, operation `o` being answered by an `Ans o`. -/
inductive Prog {Op : Type} (Ans : Op → Type) (α : Type) : Type where
  | done (a : α)
  | call (o : Op) (k : Ans o → Prog Ans α)

namespace Prog

variable {Op : Type} {Ans : Op → Type} {α β σ : Type}

/-- Sequencing: the second program starts from the first one's result. -/
def bind : Prog Ans α → (α → Prog Ans β) → Prog Ans β
  | done a, f => f a
  | call o k, f => call o fun x => (k x).bind f

instance : Monad (Prog Ans) where
  pure := done
  bind := bind

theorem bind_eq (p : Prog Ans α) (f : α → Prog Ans β) : p.bind f = p >>= f := rfl

theorem pure_bind (a : α) (f : α → Prog Ans β) : (pure a : Prog Ans α) >>= f = f a := rfl

/-- The program that performs `o` and returns its answer. -/
def perform (o : Op) : Prog Ans (Ans o) := call o done

/-- How an environment with states `σ` answers each operation. -/
abbrev Handler (Ans : Op → Type) (σ : Type) := (o : Op) → σ → Ans o × σ

/-- An operation with the answer it got. -/
abbrev Exchange (Ans : Op → Type) := (o : Op) × Ans o

variable (h : Handler Ans σ)

/-- Result and final state. -/
def run : Prog Ans α → σ → α × σ
  | done a, s => (a, s)
  | call o k, s => run (k (h o s).1) (h o s).2

/-- The exchanges of the run, in order. -/
def trace : Prog Ans α → σ → List (Exchange Ans)
  | done _, _ => []
  | call o k, s => ⟨o, (h o s).1⟩ :: trace (k (h o s).1) (h o s).2

variable {h}

@[simp] theorem run_pure (a : α) (s : σ) : run h (pure a : Prog Ans α) s = (a, s) := rfl

@[simp] theorem trace_pure (a : α) (s : σ) : trace h (pure a : Prog Ans α) s = [] := rfl

@[simp] theorem run_perform (o : Op) (s : σ) : run h (perform o) s = h o s := rfl

@[simp] theorem trace_perform (o : Op) (s : σ) :
    trace h (perform o) s = [(⟨o, (h o s).1⟩ : Exchange Ans)] := rfl

@[simp] theorem run_bind (p : Prog Ans α) (f : α → Prog Ans β) (s : σ) :
    run h (p >>= f) s = run h (f (run h p s).1) (run h p s).2 := by
  induction p generalizing s with
  | done a => rfl
  | call o k ih => exact ih (h o s).1 (h o s).2

@[simp] theorem trace_bind (p : Prog Ans α) (f : α → Prog Ans β) (s : σ) :
    trace h (p >>= f) s = trace h p s ++ trace h (f (run h p s).1) (run h p s).2 := by
  induction p generalizing s with
  | done a => rfl
  | call o k ih => exact congrArg (List.cons _) (ih (h o s).1 (h o s).2)

/-- An exchange of the run is one of the handler. -/
theorem answered_of_mem_trace {p : Prog Ans α} {s : σ} {e : Exchange Ans}
    (he : e ∈ trace h p s) : ∃ o s', e = ⟨o, (h o s').1⟩ := by
  induction p generalizing s with
  | done a => cases he
  | call o k ih =>
    rcases List.mem_cons.mp he with rfl | he
    · exact ⟨o, s, rfl⟩
    · exact ih _ he

end Prog

end InfraDemo
