import Mathlib.Data.List.Basic
import InfraDemo.Lib.Prog

/-!
# Contract — what a program does whatever it is answered

`Ensures P A p h Q` says of a program `p` that goes on from the history `h`: as long as its answers
satisfy `A`, every call it makes satisfies `P`, and it returns only with `Q`.  Calls, answers and
results are judged with the history before them.  After any exchange the rest of the program has the
same contract from the longer history, so a contract is an invariant of every system that runs the
program one exchange at a time, whatever happens between two exchanges.
-/

namespace InfraDemo.Prog

variable {Op : Type} {Ans : Op → Type} {α β : Type}

section Ensures

variable (P : List (Exchange Ans) → Op → Prop)
  (A : List (Exchange Ans) → (o : Op) → Ans o → Prop)

/-- From the history `h`, under answers that satisfy `A`, the program makes calls that satisfy `P`
and returns with `Q`. -/
def Ensures : Prog Ans α → List (Exchange Ans) → (α → List (Exchange Ans) → Prop) → Prop
  | done a, h, Q => Q a h
  | call o k, h, Q => P h o ∧ ∀ x, A h o x → Ensures (k x) (h ++ [⟨o, x⟩]) Q

variable {P A} {Q Q' : α → List (Exchange Ans) → Prop} {R : β → List (Exchange Ans) → Prop}
  {h : List (Exchange Ans)}

@[simp] theorem ensures_pure (a : α) : Ensures P A (pure a) h Q ↔ Q a h := Iff.rfl

@[simp] theorem ensures_perform (o : Op) {Q : Ans o → List (Exchange Ans) → Prop} :
    Ensures P A (perform o) h Q ↔ P h o ∧ ∀ x, A h o x → Q x (h ++ [⟨o, x⟩]) := Iff.rfl

@[simp] theorem ensures_bind (p : Prog Ans α) (f : α → Prog Ans β) :
    Ensures P A (p >>= f) h R ↔ Ensures P A p h fun a h' => Ensures P A (f a) h' R := by
  induction p generalizing h with
  | done a => rfl
  | call o k ih =>
    refine and_congr_right fun _ => forall_congr' fun x => ?_
    exact imp_congr_right fun _ => ih x

/-- A program that returns with more returns with less. -/
theorem Ensures.mono {p : Prog Ans α} (hp : Ensures P A p h Q) (hQ : ∀ a h', Q a h' → Q' a h') :
    Ensures P A p h Q' := by
  induction p generalizing h with
  | done a => exact hQ a h hp
  | call o k ih => exact ⟨hp.1, fun x hx => ih x (hp.2 x hx)⟩

/-- Every program has the contract that says nothing. -/
theorem ensures_any (p : Prog Ans α) (h : List (Exchange Ans)) :
    Ensures (fun _ _ => True) A p h fun _ _ => True := by
  induction p generalizing h with
  | done a => trivial
  | call o k ih => exact ⟨trivial, fun x _ => ih x _⟩

end Ensures

/-- Every call in the history satisfied `P` when it was made. -/
def Obeys (P : List (Exchange Ans) → Op → Prop) (h : List (Exchange Ans)) : Prop :=
  ∀ h₀ o x h₁, h = h₀ ++ ⟨o, x⟩ :: h₁ → P h₀ o

section Obeys

variable {P : List (Exchange Ans) → Op → Prop} {h : List (Exchange Ans)} {o : Op} {x : Ans o}

theorem obeys_nil : Obeys P [] := fun h₀ _ _ _ he => absurd he.symm (by simp)

theorem Obeys.concat (hh : Obeys P h) (ho : P h o) : Obeys P (h ++ [⟨o, x⟩]) := by
  intro h₀ o' x' h₁ he
  rcases List.eq_nil_or_concat' h₁ with rfl | ⟨h₂, e, rfl⟩
  · obtain ⟨rfl, hlast⟩ := List.append_inj' he rfl
    cases hlast
    exact ho
  · rw [← List.cons_append, ← List.append_assoc] at he
    obtain ⟨rfl, -⟩ := List.append_inj' he rfl
    exact hh h₀ o' x' h₂ rfl

end Obeys

/-! ### Partial runs -/

/-- Answered by the exchanges `h`, in this order, the program goes on as `p'`. -/
inductive Leads : Prog Ans α → List (Exchange Ans) → Prog Ans α → Prop where
  | nil (p : Prog Ans α) : Leads p [] p
  | cons {o : Op} {k : Ans o → Prog Ans α} {x : Ans o} {h : List (Exchange Ans)}
      {p' : Prog Ans α} (rest : Leads (k x) h p') : Leads (call o k) (⟨o, x⟩ :: h) p'

/-- One exchange nearer to the call of `o'`. -/
theorem exists_leads_cons {o o' : Op} {k : Ans o → Prog Ans α} {x : Ans o}
    {h : List (Exchange Ans)} (hk : ∃ k', Leads (k x) h (call o' k')) :
    ∃ k', Leads (call o k) (⟨o, x⟩ :: h) (call o' k') :=
  let ⟨k', rest⟩ := hk
  ⟨k', .cons rest⟩

/-! ### Complete runs -/

/-- Answered by the exchanges `h`, in this order, the program returns. -/
inductive Returns : Prog Ans α → List (Exchange Ans) → α → Prop where
  | done (a : α) : Returns (done a) [] a
  | call {o : Op} {k : Ans o → Prog Ans α} {x : Ans o} {h : List (Exchange Ans)} {a : α}
      (rest : Returns (k x) h a) : Returns (call o k) (⟨o, x⟩ :: h) a

section Returns

variable {P : List (Exchange Ans) → Op → Prop} {p : Prog Ans α} {a a' : α}
  {h h' : List (Exchange Ans)}

/-- The run under a handler. -/
theorem returns_run {σ : Type} (handler : Handler Ans σ) (p : Prog Ans α) (s : σ) :
    Returns p (trace handler p s) (run handler p s).1 := by
  induction p generalizing s with
  | done a => exact .done a
  | call o k ih => exact .call (ih _ _)

/-- **The contract of a complete run**, where any answer is allowed. -/
theorem Ensures.of_returns {Q : α → List (Exchange Ans) → Prop}
    (hp : Ensures P (fun _ _ _ => True) p h Q) (hh : Obeys P h) (hr : Returns p h' a) :
    Q a (h ++ h') ∧ Obeys P (h ++ h') := by
  induction hr generalizing h with
  | done a =>
    rw [List.append_nil]
    exact ⟨hp, hh⟩
  | @call o k x t a rest ih =>
    have hrest := ih (hp.2 x trivial) (hh.concat hp.1)
    rwa [List.append_assoc, List.singleton_append] at hrest

variable (I : Op → Prop)

/-- What the program does never depends on the answer to a call in `I`. -/
def Ignores : Prog Ans α → Prop
  | done _ => True
  | call o k => (I o → ∀ x y, k x = k y) ∧ ∀ x, Ignores (k x)

variable {I}

theorem ignores_bind {f : α → Prog Ans β} (hp : Ignores I p) (hf : ∀ a, Ignores I (f a)) :
    Ignores I (p >>= f) := by
  induction p with
  | done a => exact hf a
  | call o k ih =>
    refine ⟨fun ho x y => ?_, fun x => ih x (hp.2 x)⟩
    show k x >>= f = k y >>= f
    rw [hp.1 ho x y]

theorem ignores_perform {o : Op} (ho : ¬ I o) : Ignores I (perform o : Prog Ans (Ans o)) :=
  ⟨fun h => absurd h ho, fun _ => trivial⟩

theorem ignores_perform_bind {o : Op} (hp : Ignores I p) :
    Ignores I ((perform o : Prog Ans (Ans o)) >>= fun _ => p) := ⟨fun _ _ _ => rfl, fun _ => hp⟩

/-- The exchanges of the other calls. -/
def heard (I : Op → Prop) [DecidablePred I] (h : List (Exchange Ans)) : List (Exchange Ans) :=
  h.filter fun e => ¬ I e.1

/-- **What is ignored does not matter**: two runs that differ in ignored answers only return the
same. -/
theorem Ignores.eq_of_returns [DecidablePred I] (hp : Ignores I p) (hr : Returns p h a)
    (hr' : Returns p h' a') (hsame : heard I h = heard I h') : a = a' := by
  induction hr generalizing h' with
  | done a =>
    cases hr'
    rfl
  | @call o k x t a rest ih =>
    cases hr' with
    | @call _ _ x' t' _ rest' =>
      by_cases ho : I o
      · rw [heard, heard, List.filter_cons_of_neg (by simpa using ho),
          List.filter_cons_of_neg (by simpa using ho)] at hsame
        rw [hp.1 ho x' x] at rest'
        exact ih (hp.2 x) rest' hsame
      · rw [heard, heard, List.filter_cons_of_pos (by simpa using ho),
          List.filter_cons_of_pos (by simpa using ho)] at hsame
        obtain ⟨he, htail⟩ := List.cons.inj hsame
        cases he
        exact ih (hp.2 x) rest' htail

end Returns

end InfraDemo.Prog
