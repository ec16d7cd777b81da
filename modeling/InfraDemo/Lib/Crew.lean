import Mathlib.Data.List.Forall2
import Mathlib.Logic.Relation

/-!
# Crew — threads that share no state

A crew is a list of threads, of which one makes a step at a time.  A run of the crew is a run of each
thread (`project`), and a run of one thread is one of the crew (`runs_set`).
-/

namespace InfraDemo.Crew

open Relation

variable {σ : Type} (R : σ → σ → Prop)

/-- One thread makes a step. -/
inductive Step (l : List σ) : List σ → Prop where
  | thread {i : ℕ} {t t' : σ} (place : l[i]? = some t) (step : R t t') : Step l (l.set i t')

variable {R} {l l' : List σ} {i : ℕ} {t t' : σ}

theorem forall₂_set {P : σ → σ → Prop} (h : List.Forall₂ P l l') (hi : l'[i]? = some t)
    (ht : ∀ x, P x t → P x t') : List.Forall₂ P l (l'.set i t') := by
  induction h generalizing i with
  | nil => cases hi
  | cons hx hl ih =>
    cases i with
    | zero =>
      obtain rfl := Option.some_inj.mp hi
      exact .cons (ht _ hx) hl
    | succ i => exact .cons hx (ih hi)

/-- **Each thread makes a run of its own.** -/
theorem project (h : ReflTransGen (Step R) l l') : List.Forall₂ (ReflTransGen R) l l' := by
  induction h with
  | refl => exact List.forall₂_same.mpr fun _ _ => .refl
  | tail _ hstep ih =>
    cases hstep with
    | thread place step => exact forall₂_set ih place fun x hx => hx.tail step

/-- **A run of one thread**, the others waiting. -/
theorem runs_set (hi : l[i]? = some t) (h : ReflTransGen R t t') :
    ReflTransGen (Step R) l (l.set i t') := by
  induction h with
  | refl =>
    obtain ⟨hlt, rfl⟩ := List.getElem?_eq_some_iff.mp hi
    rw [List.set_getElem_self]
  | @tail u v _ hstep ih =>
    have hlt : i < l.length := (List.getElem?_eq_some_iff.mp hi).1
    have hu : (l.set i u)[i]? = some u := List.getElem?_set_self hlt
    have hset : (l.set i u).set i v = l.set i v := List.set_set ..
    exact hset ▸ ih.tail (.thread hu hstep)

end InfraDemo.Crew
