import Mathlib.Data.List.Perm.Subperm
import Mathlib.Tactic.Common

/-!
# Prefixes — how far two lists agree

`commonPrefix` is the longest common prefix.  It passes over equal beginnings (`commonPrefix_append`),
and two words with an end mark behind them agree as far as the words do (`commonPrefix_marked`): so two
texts of marked words agree up to the first word in which they differ.
-/

namespace InfraDemo.Prefixes

variable {α : Type*}

/-- Lists of one length that differ have a first difference. -/
theorem exists_first_difference {xs ys : List α} (hlen : xs.length = ys.length) (h : xs ≠ ys) :
    ∃ pre a b s t, xs = pre ++ a :: s ∧ ys = pre ++ b :: t ∧ a ≠ b := by
  induction xs generalizing ys with
  | nil => exact absurd (List.length_eq_zero_iff.mp hlen.symm).symm h
  | cons x xs ih =>
    cases ys with
    | nil => cases hlen
    | cons y ys =>
      by_cases hxy : x = y
      · subst hxy
        have htail : xs ≠ ys := fun heq => h (congrArg (x :: ·) heq)
        obtain ⟨pre, a, b, s, t, rfl, rfl, hab⟩ := ih (Nat.succ.inj hlen) htail
        exact ⟨x :: pre, a, b, s, t, rfl, rfl, hab⟩
      · exact ⟨[], x, y, xs, ys, rfl, rfl, hxy⟩

/-- Rearrangements that differ do so before the last place. -/
theorem rest_ne_nil {pre s t : List α} {a b : α} (h : (pre ++ a :: s).Perm (pre ++ b :: t))
    (hab : a ≠ b) : s ≠ [] := by
  rintro rfl
  have hperm : [a].Perm (b :: t) := (List.perm_append_left_iff pre).mp h
  obtain ⟨rfl, -⟩ := List.cons.inj (List.singleton_perm.mp hperm)
  exact hab rfl

variable [DecidableEq α]

/-- The longest common prefix. -/
def commonPrefix : List α → List α → List α
  | a :: as, b :: bs => if a = b then a :: commonPrefix as bs else []
  | _, _ => []

variable {as bs p : List α} {a b e : α}

theorem commonPrefix_cons_self (a : α) (as bs : List α) :
    commonPrefix (a :: as) (a :: bs) = a :: commonPrefix as bs := if_pos rfl

theorem commonPrefix_cons_ne (h : a ≠ b) (as bs : List α) :
    commonPrefix (a :: as) (b :: bs) = [] := if_neg h

theorem commonPrefix_append (xs as bs : List α) :
    commonPrefix (xs ++ as) (xs ++ bs) = xs ++ commonPrefix as bs := by
  induction xs with
  | nil => rfl
  | cons x xs ih => rw [List.cons_append, List.cons_append, commonPrefix_cons_self, ih, List.cons_append]

/-- **It is the longest**: its prefixes are the common ones. -/
theorem prefix_commonPrefix_iff : p <+: commonPrefix as bs ↔ p <+: as ∧ p <+: bs := by
  induction p generalizing as bs with
  | nil => exact iff_of_true List.nil_prefix ⟨List.nil_prefix, List.nil_prefix⟩
  | cons x p ih =>
    cases as with
    | nil => exact iff_of_false (by simp [commonPrefix]) (by simp)
    | cons a as =>
      cases bs with
      | nil => exact iff_of_false (by simp [commonPrefix]) (by simp)
      | cons b bs =>
        by_cases hab : a = b
        · subst hab
          rw [commonPrefix_cons_self, List.cons_prefix_cons, List.cons_prefix_cons,
            List.cons_prefix_cons, ih]
          tauto
        · rw [commonPrefix_cons_ne hab, List.prefix_nil, List.cons_prefix_cons,
            List.cons_prefix_cons]
          refine iff_of_false (List.cons_ne_nil x p) ?_
          rintro ⟨⟨rfl, -⟩, rfl, -⟩
          exact hab rfl

theorem commonPrefix_prefix_left (as bs : List α) : commonPrefix as bs <+: as :=
  (prefix_commonPrefix_iff.mp (List.prefix_refl _)).1

theorem commonPrefix_prefix_right (as bs : List α) : commonPrefix as bs <+: bs :=
  (prefix_commonPrefix_iff.mp (List.prefix_refl _)).2

theorem commonPrefix_self (as : List α) : commonPrefix as as = as := by
  have hprefix : as <+: commonPrefix as as :=
    prefix_commonPrefix_iff.mpr ⟨List.prefix_refl as, List.prefix_refl as⟩
  exact ((commonPrefix_prefix_left as as).eq_of_length_le hprefix.length_le)

/-- **Marked words**: what follows the end marks of different words does not count. -/
theorem commonPrefix_marked (has : e ∉ as) (hbs : e ∉ bs) (h : as ≠ bs) (xs ys : List α) :
    commonPrefix (as ++ e :: xs) (bs ++ e :: ys) = commonPrefix as bs := by
  induction as generalizing bs with
  | nil =>
    cases bs with
    | nil => exact absurd rfl h
    | cons b bs =>
      have hne : e ≠ b := fun heq => hbs (heq ▸ List.mem_cons_self : e ∈ b :: bs)
      exact commonPrefix_cons_ne hne _ _
  | cons a as ih =>
    cases bs with
    | nil =>
      have hne : a ≠ e := fun heq => has (heq ▸ List.mem_cons_self : e ∈ a :: as)
      exact commonPrefix_cons_ne hne _ _
    | cons b bs =>
      by_cases hab : a = b
      · subst hab
        have htail : as ≠ bs := fun heq => h (congrArg (a :: ·) heq)
        rw [List.cons_append, List.cons_append, commonPrefix_cons_self, commonPrefix_cons_self,
          ih (fun hmem => has (List.mem_cons_of_mem _ hmem))
            (fun hmem => hbs (List.mem_cons_of_mem _ hmem)) htail]
      · rw [List.cons_append, List.cons_append, commonPrefix_cons_ne hab, commonPrefix_cons_ne hab]

end InfraDemo.Prefixes
