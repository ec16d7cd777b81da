import Mathlib.Data.List.Induction

/-!
# Run — runs of a step function and what holds along them

`step s i` is the state after input `i` in state `s`, `record s i` what is kept of that step.  A run
from `s` is a list of inputs; `records` lists what it keeps, `final` is the state it ends in.  Two
induction rules: an invariant of the states gives a fact about every record (`forall_records`), and
an invariant that also reads the records so far holds at the end of every run (`final_rec`).
-/

namespace InfraDemo.Run

variable {σ ι ρ : Type} (step : σ → ι → σ) (record : σ → ι → ρ)

/-- The state a run ends in. -/
def final (s : σ) (is : List ι) : σ := is.foldl step s

/-- The records of a run, oldest first. -/
def records (s : σ) : List ι → List ρ
  | [] => []
  | i :: is => record s i :: records (step s i) is

@[simp] theorem final_nil (s : σ) : final step s [] = s := rfl

@[simp] theorem records_nil (s : σ) : records step record s [] = [] := rfl

@[simp] theorem final_cons (s : σ) (i : ι) (is : List ι) :
    final step s (i :: is) = final step (step s i) is := rfl

@[simp] theorem records_cons (s : σ) (i : ι) (is : List ι) :
    records step record s (i :: is) = record s i :: records step record (step s i) is := rfl

theorem final_append (s : σ) (is js : List ι) :
    final step s (is ++ js) = final step (final step s is) js := List.foldl_append ..

theorem records_append (s : σ) (is js : List ι) :
    records step record s (is ++ js) =
      records step record s is ++ records step record (final step s is) js := by
  induction is generalizing s with
  | nil => rfl
  | cons i is ih => simp only [List.cons_append, records_cons, final_cons, ih]

@[simp] theorem final_concat (s : σ) (is : List ι) (i : ι) :
    final step s (is ++ [i]) = step (final step s is) i := final_append step s is [i]

@[simp] theorem records_concat (s : σ) (is : List ι) (i : ι) :
    records step record s (is ++ [i]) =
      records step record s is ++ [record (final step s is) i] := records_append step record s is [i]

@[simp] theorem length_records (s : σ) (is : List ι) :
    (records step record s is).length = is.length := by
  induction is generalizing s with
  | nil => rfl
  | cons i is ih => simp only [records_cons, List.length_cons, ih]

/-- The record at an index is that of the step made there. -/
theorem records_getElem? (s : σ) (is : List ι) (k : ℕ) :
    (records step record s is)[k]? = is[k]?.map (record (final step s (is.take k))) := by
  induction is generalizing s k with
  | nil => rfl
  | cons i is ih =>
    cases k with
    | zero => rfl
    | succ k =>
      rw [records_cons, List.getElem?_cons_succ, ih, List.getElem?_cons_succ, List.take_succ_cons,
        final_cons]

variable {step record}

/-- A record of a run splits the run. -/
theorem records_eq_append_cons {s : σ} {is : List ι} {pre : List ρ} {r : ρ} {post : List ρ}
    (h : records step record s is = pre ++ r :: post) : ∃ js i ks, is = js ++ i :: ks ∧
      records step record s js = pre ∧ record (final step s js) i = r := by
  induction pre generalizing s is with
  | nil =>
    cases is with
    | nil => cases h
    | cons i is => exact ⟨[], i, is, rfl, rfl, (List.cons.inj h).1⟩
  | cons q pre ih =>
    cases is with
    | nil => cases h
    | cons j is =>
      obtain ⟨hq, h⟩ := List.cons.inj h
      obtain ⟨js, i, ks, rfl, hpre, hr⟩ := ih h
      exact ⟨j :: js, i, ks, rfl, by rw [records_cons, hq, hpre], hr⟩

/-- **Invariant rule**: what every allowed step does from a state satisfying `I` holds of every
record of a run of allowed inputs. -/
theorem forall_records {I : σ → Prop} {A : ι → Prop} {P : ρ → Prop}
    (hstep : ∀ s i, A i → I s → I (step s i) ∧ P (record s i)) :
    ∀ {is : List ι} {s : σ}, I s → (∀ i ∈ is, A i) → ∀ r ∈ records step record s is, P r
  | [], _, _, _, r, hr => absurd hr (by simp)
  | i :: is, s, hs, hA, r, hr => by
    obtain ⟨hs', hP⟩ := hstep s i (hA i (by simp)) hs
    rcases List.mem_cons.mp hr with rfl | hr
    · exact hP
    · exact forall_records hstep hs' (fun j hj => hA j (by simp [hj])) r hr

/-- The states of a run of allowed inputs satisfy the invariant. -/
theorem final_of_invariant {I : σ → Prop} {A : ι → Prop}
    (hstep : ∀ s i, A i → I s → I (step s i)) :
    ∀ {is : List ι} {s : σ}, I s → (∀ i ∈ is, A i) → I (final step s is)
  | [], _, hs, _ => hs
  | i :: _, s, hs, hA => final_of_invariant (s := step s i) hstep
      (hstep s i (hA i (by simp)) hs) fun j hj => hA j (by simp [hj])

/-- **History rule**: an invariant of the records so far and the current state. -/
theorem final_rec {J : List ρ → σ → Prop} {A : ι → Prop} {s : σ} (h0 : J [] s)
    (hstep : ∀ rs s i, A i → J rs s → J (rs ++ [record s i]) (step s i)) (is : List ι)
    (hA : ∀ i ∈ is, A i) : J (records step record s is) (final step s is) := by
  induction is using List.reverseRecOn with
  | nil => exact h0
  | append_singleton is i ih =>
    rw [records_concat, final_concat]
    exact hstep _ _ i (hA i (by simp)) (ih fun j hj => hA j (by simp [hj]))

/-- **Settling rule**: where every allowed step from the invariant settles the state for good or makes
the measure smaller, a run that is longer than the measure ends settled. -/
theorem final_settles {I S : σ → Prop} {A : ι → Prop} (μ : σ → ℕ)
    (hstay : ∀ s i, A i → S s → S (step s i))
    (hstep : ∀ s i, A i → I s → S (step s i) ∨ I (step s i) ∧ μ (step s i) < μ s) :
    ∀ {is : List ι} {s : σ}, I s → (∀ i ∈ is, A i) → μ s < is.length → S (final step s is)
  | [], _, _, _, hlt => absurd hlt (Nat.not_lt_zero _)
  | i :: is, s, hs, hA, hlt => by
    have hrest : ∀ j ∈ is, A j := fun j hj => hA j (by simp [hj])
    rcases hstep s i (hA i (by simp)) hs with hset | ⟨hs', hμ⟩
    · exact final_of_invariant (s := step s i) hstay hset hrest
    · rw [List.length_cons] at hlt
      exact final_settles μ hstay hstep (s := step s i) hs' hrest (by omega)

/-- **Relational rule**: two runs on inputs related one by one keep a relation of their states. -/
theorem final_rel {R : σ → σ → Prop} {A : ι → ι → Prop}
    (hstep : ∀ s s' i i', A i i' → R s s' → R (step s i) (step s' i')) {s s' : σ}
    {is js : List ι} (hA : List.Forall₂ A is js) (hR : R s s') :
    R (final step s is) (final step s' js) := by
  induction hA generalizing s s' with
  | nil => exact hR
  | cons hij _ ih => exact ih (hstep _ _ _ _ hij hR)

/-- **Simulation rule**: a system that takes each step as another one takes the translated input
stays related to it. -/
theorem final_sim {σ' ι' : Type} {step' : σ' → ι' → σ'} {f : ι → ι'} {R : σ → σ' → Prop}
    {A : ι → Prop} (hstep : ∀ s s' i, A i → R s s' → R (step s i) (step' s' (f i))) {is : List ι}
    {s : σ} {s' : σ'} (hR : R s s') (hA : ∀ i ∈ is, A i) :
    R (final step s is) (final step' s' (is.map f)) := by
  induction is generalizing s s' with
  | nil => exact hR
  | cons i is ih =>
    exact ih (hstep s s' i (hA i (by simp)) hR) fun j hj => hA j (by simp [hj])

end InfraDemo.Run
