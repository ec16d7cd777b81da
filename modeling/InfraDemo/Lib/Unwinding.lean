import InfraDemo.Lib.Run

/-!
# Unwinding — runs of a shared system, seen by one owner

Every input of a run belongs to an owner and every owner has a view of the state.  Two facts about
single steps, that the inputs of others leave a view alone and that own inputs take equal views to
equal views, give the two-run statement: what an owner sees along a run depends on its view of the
start and on its own inputs only (`history_eq`).
-/

namespace InfraDemo.Unwinding

variable {σ ι κ ν : Type} [DecidableEq κ] (step : σ → ι → σ) (owner : ι → κ) (view : κ → σ → ν)

/-- What `o` sees after each of its inputs. -/
def history (o : κ) : σ → List ι → List ν
  | _, [] => []
  | s, i :: is =>
    if owner i = o then view o (step s i) :: history o (step s i) is
    else history o (step s i) is

/-- The inputs of `o`. -/
def inputsOf (o : κ) (is : List ι) : List ι := is.filter fun i => owner i = o

/-- The two step facts for `o`, in states that satisfy the invariant `I` and under inputs that
satisfy `A`. -/
structure Isolates (I : σ → Prop) (A : ι → Prop) (o : κ) : Prop where
  keeps : ∀ s i, A i → I s → I (step s i)
  other : ∀ s i, A i → I s → owner i ≠ o → view o (step s i) = view o s
  own : ∀ s s' i, A i → I s → I s' → owner i = o → view o s = view o s' →
    view o (step s i) = view o (step s' i)

variable {step owner view} {I : σ → Prop} {A : ι → Prop} {o : κ}

/-- The inputs of others can be left out of a run. -/
theorem history_filter (h : Isolates step owner view I A o) : ∀ {is : List ι} {s s' : σ}, I s →
    I s' → (∀ i ∈ is, A i) → view o s = view o s' →
    history step owner view o s is = history step owner view o s' (inputsOf owner o is)
  | [], _, _, _, _, _, _ => rfl
  | i :: is, s, s', hs, hs', hA, hv => by
    have hi : A i := hA i (by simp)
    have hA' : ∀ j ∈ is, A j := fun j hj => hA j (by simp [hj])
    unfold inputsOf
    by_cases ho : owner i = o
    · have hstep := h.own s s' i hi hs hs' ho hv
      rw [List.filter_cons_of_pos (by simpa using ho), history, history, if_pos ho, if_pos ho, hstep]
      exact congrArg _ (history_filter h (h.keeps s i hi hs) (h.keeps s' i hi hs') hA' hstep)
    · rw [List.filter_cons_of_neg (by simpa using ho), history, if_neg ho]
      exact history_filter h (h.keeps s i hi hs) hs' hA' ((h.other s i hi hs ho).trans hv)

/-- **Unwinding**: two runs with the same own inputs, from starts with the same view, look the same
to the owner. -/
theorem history_eq (h : Isolates step owner view I A o) {is js : List ι} {s s' : σ} (hs : I s)
    (hs' : I s') (his : ∀ i ∈ is, A i) (hjs : ∀ j ∈ js, A j) (hv : view o s = view o s')
    (hsame : inputsOf owner o is = inputsOf owner o js) :
    history step owner view o s is = history step owner view o s' js := by
  rw [history_filter h hs hs' his hv, history_filter h hs' hs' hjs rfl, hsame]

omit [DecidableEq κ] in
/-- Between own inputs the view stays. -/
theorem view_final_of_others (h : Isolates step owner view I A o) {is : List ι} {s : σ} (hs : I s)
    (his : ∀ i ∈ is, A i) (hno : ∀ i ∈ is, owner i ≠ o) :
    view o (Run.final step s is) = view o s := by
  induction is generalizing s with
  | nil => rfl
  | cons i is ih =>
    have hi : A i := his i (by simp)
    rw [Run.final_cons, ih (h.keeps s i hi hs) (fun j hj => his j (by simp [hj]))
      (fun j hj => hno j (by simp [hj])), h.other s i hi hs (hno i (by simp))]

end InfraDemo.Unwinding
