import InfraDemo.Lib.Hysteresis
import InfraDemo.Lib.Run

/-!
# Setpoint — a counter that follows a setting

Anyone may change the setting in any way; a poll moves the counter one clamped step to where the
setting asks.  Between the bounds the counter stays between the bounds (`final_mem`), and once the
setting asks for one move only, enough polls take it to the goal of that move (`final_goal`).
-/

namespace InfraDemo.Setpoint

open Hysteresis

variable {α β : Type}

structure State (α β : Type) where
  setting : α
  counter : β

/-- A change of the setting, a poll, or a poll that comes to nothing. -/
inductive Input (α : Type) where
  | set (change : α → α)
  | poll
  | pass

namespace Input

/-- What the input does to the setting. -/
def change : Input α → α → α
  | .set f => f
  | .poll => id
  | .pass => id

def isPoll : Input α → Bool
  | .poll => true
  | _ => false

end Input

section Order

variable [LinearOrder β] [SuccOrder β] [PredOrder β] (lo hi : β) (asks : α → Move)

def step (s : State α β) (i : Input α) : State α β where
  setting := i.change s.setting
  counter := if i.isPoll then clampStep lo hi s.counter (asks s.setting) else s.counter

variable {lo hi} {s : State α β}

/-- Whatever the setting does, the counter stays in the bounds. -/
theorem final_mem (hc : s.counter ∈ Set.Icc lo hi) (is : List (Input α)) :
    (Run.final (step lo hi asks) s is).counter ∈ Set.Icc lo hi := by
  refine Run.final_of_invariant (I := fun s : State α β => s.counter ∈ Set.Icc lo hi) (A := fun _ => True)
    (fun s i _ h => ?_) hc fun _ _ => trivial
  show (if i.isPoll then _ else s.counter) ∈ Set.Icc lo hi
  split_ifs
  · exact clampStep_mem h _
  · exact h

/-- The settings after each input, and the one before them, all ask for the same move. -/
def Steady (m : Move) (a : α) : List (Input α) → Prop
  | [] => asks a = m
  | i :: is => asks a = m ∧ Steady m (i.change a) is

end Order

/-! ### Where the counter goes -/

section Goal

variable {lo hi c : ℤ} {asks : α → Move} {m : Move} {s : State α ℤ}

/-- The place where a move asked for again and again takes the counter. -/
def goal (lo hi c : ℤ) : Move → ℤ
  | .up => hi
  | .down => lo
  | .hold => c

/-- The goal stays the goal. -/
theorem goal_clampStep (lo hi c : ℤ) (m : Move) :
    goal lo hi (clampStep lo hi c m) m = goal lo hi c m := by
  cases m <;> rfl

/-- A counter that the move leaves is at the goal. -/
theorem eq_goal (h : clampStep lo hi c m = c) : c = goal lo hi c m := by
  cases m with
  | up =>
    simp only [clampStep, goal, Order.succ_eq_add_one] at h ⊢
    omega
  | down =>
    simp only [clampStep, goal, Order.pred_eq_sub_one] at h ⊢
    omega
  | hold => rfl

/-- Without steps left there is no move. -/
theorem clampStep_eq (h : stepsLeft lo hi c m = 0) : clampStep lo hi c m = c := by
  by_contra hne
  exact absurd (stepsLeft_clampStep_lt hne) (by omega)

/-- In the bounds there are no more steps to a bound than between the two. -/
theorem stepsLeft_le (hlo : lo ≤ c) (hhi : c ≤ hi) (m : Move) :
    stepsLeft lo hi c m ≤ (hi - lo).toNat := by
  cases m with
  | up =>
    simp only [stepsLeft, if_pos hhi]
    omega
  | down =>
    simp only [stepsLeft, if_pos hlo]
    omega
  | hold => exact Nat.zero_le _

/-- At its goal the counter stays. -/
theorem final_of_settled {is : List (Input α)} (hsteady : Steady asks m s.setting is)
    (hstay : clampStep lo hi s.counter m = s.counter) :
    (Run.final (step lo hi asks) s is).counter = s.counter := by
  induction is generalizing s with
  | nil => rfl
  | cons i is ih =>
    have hnext : (step lo hi asks s i).counter = s.counter := by
      show (if i.isPoll then _ else s.counter) = s.counter
      rw [hsteady.1, hstay, ite_self]
    rw [Run.final_cons, ih (s := step lo hi asks s i) hsteady.2 (by rw [hnext, hstay]), hnext]

/-- **A steady setting takes the counter to its goal**, in as many polls as there are steps left. -/
theorem final_goal {is : List (Input α)} (hsteady : Steady asks m s.setting is)
    (hpolls : stepsLeft lo hi s.counter m ≤ is.countP Input.isPoll) :
    (Run.final (step lo hi asks) s is).counter = goal lo hi s.counter m := by
  induction is generalizing s with
  | nil => exact eq_goal (clampStep_eq (Nat.le_zero.mp hpolls))
  | cons i is ih =>
    by_cases hstay : clampStep lo hi s.counter m = s.counter
    · rw [final_of_settled hsteady hstay]
      exact eq_goal hstay
    · cases hpoll : i.isPoll with
      | false =>
        have hnext : (step lo hi asks s i).counter = s.counter := if_neg (by simp [hpoll])
        rw [List.countP_cons_of_neg (by simp [hpoll])] at hpolls
        rw [Run.final_cons, ih (s := step lo hi asks s i) hsteady.2 (by rwa [hnext]), hnext]
      | true =>
        have hnext : (step lo hi asks s i).counter = clampStep lo hi s.counter m := by
          rw [← hsteady.1]
          exact if_pos hpoll
        have hlt := stepsLeft_clampStep_lt hstay
        rw [List.countP_cons_of_pos hpoll] at hpolls
        rw [Run.final_cons, ih (s := step lo hi asks s i) hsteady.2 (by rw [hnext]; omega), hnext,
          goal_clampStep]

end Goal

end InfraDemo.Setpoint
