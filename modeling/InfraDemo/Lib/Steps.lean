import Mathlib.Data.List.Basic

/-!
# Steps — labelled runs, and when one system follows another

`Steps step s ls s'` is a run from `s` to `s'` whose steps have the labels `ls`.  An invariant of the
steps holds along every run (`Steps.invariant`), and a system whose steps are steps of another one, or
nothing to it, has for every run the run of the other one that its labels tell (`Steps.simulate`).
-/

namespace InfraDemo

variable {σ τ ι κ : Type}

inductive Steps (step : σ → ι → σ → Prop) (s : σ) : List ι → σ → Prop where
  | nil : Steps step s [] s
  | concat {ls : List ι} {l : ι} {s' s'' : σ} (run : Steps step s ls s') (last : step s' l s'') :
      Steps step s (ls ++ [l]) s''

namespace Steps

variable {step : σ → ι → σ → Prop} {s s' s'' : σ} {ls ls' : List ι} {l : ι}

theorem single (h : step s l s') : Steps step s [l] s' := .concat .nil h

theorem trans (h : Steps step s ls s') (h' : Steps step s' ls' s'') :
    Steps step s (ls ++ ls') s'' := by
  induction h' with
  | nil => rwa [List.append_nil]
  | concat _ last ih =>
    rw [← List.append_assoc]
    exact ih.concat last

/-- **Invariant rule.** -/
theorem invariant {I : σ → Prop} (hstep : ∀ s l s', I s → step s l s' → I s')
    (h : Steps step s ls s') (hs : I s) : I s' := by
  induction h with
  | nil => exact hs
  | concat _ last ih => exact hstep _ _ _ ih last

variable {I : σ → Prop} {A : ι → Prop}

/-- **Label rule**: what every step from a state of the invariant says of its label. -/
theorem forall_label {B : ι → Prop} (hstep : ∀ s l s', I s → A l → step s l s' → I s' ∧ B l)
    (h : Steps step s ls s') (hs : I s) (hl : ∀ l ∈ ls, A l) : I s' ∧ ∀ l ∈ ls, B l := by
  induction h with
  | nil => exact ⟨hs, fun _ hmem => absurd hmem List.not_mem_nil⟩
  | @concat ls l s' s'' _ last ih =>
    obtain ⟨hs', hall⟩ := ih fun l hmem => hl l (List.mem_append_left _ hmem)
    obtain ⟨hs'', hlast⟩ := hstep _ _ _ hs' (hl l (by simp)) last
    refine ⟨hs'', fun k hmem => ?_⟩
    rcases List.mem_append.mp hmem with hmem | hmem
    · exact hall k hmem
    · exact List.mem_singleton.mp hmem ▸ hlast

/-- **Simulation rule**: where every step from a state of the invariant is the step of the other system
that its label stands for, or leaves the other state if it stands for none, so is every run. -/
theorem simulate {other : τ → κ → τ → Prop} {f : σ → τ} (g : ι → Option κ)
    (hstep : ∀ s l s', I s → A l → step s l s' → I s' ∧
      (∀ k, g l = some k → other (f s) k (f s')) ∧ (g l = none → f s' = f s))
    (h : Steps step s ls s') (hs : I s) (hl : ∀ l ∈ ls, A l) :
    I s' ∧ Steps other (f s) (ls.filterMap g) (f s') := by
  induction h with
  | nil => exact ⟨hs, .nil⟩
  | @concat ls l s' s'' _ last ih =>
    obtain ⟨hs', hrun⟩ := ih fun l hmem => hl l (List.mem_append_left _ hmem)
    obtain ⟨hs'', hsome, hnone⟩ := hstep _ _ _ hs' (hl l (by simp)) last
    refine ⟨hs'', ?_⟩
    rw [List.filterMap_append]
    cases hg : g l with
    | none =>
      rw [List.filterMap_cons_none hg, List.filterMap_nil, List.append_nil, hnone hg]
      exact hrun
    | some k =>
      rw [List.filterMap_cons_some hg, List.filterMap_nil]
      exact hrun.concat (hsome k hg)

end Steps

end InfraDemo
