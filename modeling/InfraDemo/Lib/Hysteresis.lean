import Mathlib.Algebra.Order.SuccPred
import Mathlib.Data.Int.SuccPred
import Mathlib.Order.Interval.Set.Basic
import Mathlib.Order.SuccPred.Basic

/-!
# Hysteresis — a two-threshold controller of a bounded counter

A reading above `high` asks for a move up, else one below `low` for a move down, else the counter
holds.  `clampStep` carries a move out on a counter with bounds `lo` and `hi`, clamping each move
only on the side it moves to.  Readings live in any linear order, counters in any linear order with
successor and predecessor.
-/

namespace InfraDemo.Hysteresis

/-- What a reading asks for. -/
inductive Move where
  | up | down | hold
  deriving DecidableEq, Repr

section Reading

variable {α : Type*} [LinearOrder α]

/-- The move a reading asks for; where the two regions overlap, up wins. -/
def move (high low u : α) : Move :=
  if high < u then .up else if u < low then .down else .hold

variable {high low u a b : α}

theorem move_eq_up : move high low u = .up ↔ high < u := by
  unfold move
  split_ifs with h1 h2 <;> simp [h1]

theorem move_eq_down : move high low u = .down ↔ u ≤ high ∧ u < low := by
  unfold move
  split_ifs with h1 h2
  · simp [h1]
  · simp [not_lt.mp h1, h2]
  · simp [h2]

theorem move_eq_hold : move high low u = .hold ↔ u ≤ high ∧ low ≤ u := by
  unfold move
  split_ifs with h1 h2
  · simp [h1]
  · simp [h2]
  · simp [not_lt.mp h1, not_lt.mp h2]

/-- **The band separates**: with ordered thresholds `high` itself holds, strictly between any reading
that moves up and any that moves down. -/
theorem hold_between (h : low ≤ high) (ha : move high low a = .up)
    (hb : move high low b = .down) : b < high ∧ high < a ∧ move high low high = .hold := by
  obtain ⟨-, hb⟩ := move_eq_down.mp hb
  exact ⟨hb.trans_le h, move_eq_up.mp ha, move_eq_hold.mpr ⟨le_rfl, h⟩⟩

end Reading

section Counter

variable {β : Type*} [LinearOrder β] [SuccOrder β] [PredOrder β] {lo hi c : β}

/-- One move of a counter with bounds `lo` and `hi`. -/
def clampStep (lo hi c : β) : Move → β
  | .up => min hi (Order.succ c)
  | .down => max lo (Order.pred c)
  | .hold => c

/-- Inside the bounds no move leaves them. -/
theorem clampStep_mem (hc : c ∈ Set.Icc lo hi) (m : Move) : clampStep lo hi c m ∈ Set.Icc lo hi := by
  cases m with
  | up => exact ⟨le_min (hc.1.trans hc.2) (hc.1.trans (Order.le_succ c)), min_le_left _ _⟩
  | down => exact ⟨le_max_left _ _, max_le (hc.1.trans hc.2) ((Order.pred_le c).trans hc.2)⟩
  | hold => exact hc

/-- No move leaves a wider interval, wherever the counter stands in it. -/
theorem clampStep_mem_of_subset {a b : β} (h : lo ≤ hi) (ha : a ≤ lo) (hb : hi ≤ b)
    (hc : c ∈ Set.Icc a b) (m : Move) : clampStep lo hi c m ∈ Set.Icc a b := by
  cases m with
  | up =>
    exact ⟨le_min (ha.trans h) (hc.1.trans (Order.le_succ c)), (min_le_left _ _).trans hb⟩
  | down =>
    exact ⟨ha.trans (le_max_left _ _), max_le (h.trans hb) ((Order.pred_le c).trans hc.2)⟩
  | hold => exact hc

/-- No move goes below what bounds the counter and its limits from below. -/
theorem le_clampStep {k : β} (hlo : k ≤ lo) (hhi : k ≤ hi) (hc : k ≤ c) (m : Move) :
    k ≤ clampStep lo hi c m := by
  cases m with
  | up => exact le_min hhi (hc.trans (Order.le_succ c))
  | down => exact hlo.trans (le_max_left _ _)
  | hold => exact hc

/-- No move goes above what bounds the counter and its limits from above. -/
theorem clampStep_le {k : β} (hlo : lo ≤ k) (hhi : hi ≤ k) (hc : c ≤ k) (m : Move) :
    clampStep lo hi c m ≤ k := by
  cases m with
  | up => exact (min_le_left _ _).trans hhi
  | down => exact max_le hlo ((Order.pred_le c).trans hc)
  | hold => exact hc

/-- Inside the bounds a move up never lowers the counter, and goes one step at most. -/
theorem le_clampStep_up (hc : c ∈ Set.Icc lo hi) :
    c ≤ clampStep lo hi c .up ∧ clampStep lo hi c .up ≤ Order.succ c :=
  ⟨le_min hc.2 (Order.le_succ c), min_le_right _ _⟩

/-- Inside the bounds a move down never raises the counter, and goes one step at most. -/
theorem clampStep_down_le (hc : c ∈ Set.Icc lo hi) :
    clampStep lo hi c .down ≤ c ∧ Order.pred c ≤ clampStep lo hi c .down :=
  ⟨max_le hc.1 (Order.pred_le c), le_max_right _ _⟩

/-- From an arbitrary counter a move ends inside the bounds exactly when it was at most one step
short of the bound it moves away from; a hold has to start inside. -/
theorem clampStep_mem_iff (h : lo ≤ hi) (m : Move) : clampStep lo hi c m ∈ Set.Icc lo hi ↔
    match m with
    | .up => lo ≤ Order.succ c
    | .down => Order.pred c ≤ hi
    | .hold => c ∈ Set.Icc lo hi := by
  cases m with
  | up => simp [clampStep, Set.mem_Icc, h]
  | down => simp [clampStep, Set.mem_Icc, h]
  | hold => rfl

/-- A counter in the bounds that a move raises was moved up. -/
theorem eq_up_of_lt (hc : c ∈ Set.Icc lo hi) {m : Move} (h : c < clampStep lo hi c m) : m = .up := by
  cases m with
  | up => rfl
  | down => exact absurd h (clampStep_down_le hc).1.not_gt
  | hold => exact absurd h (lt_irrefl c)

/-- A counter in the bounds that a move lowers was moved down. -/
theorem eq_down_of_lt (hc : c ∈ Set.Icc lo hi) {m : Move} (h : clampStep lo hi c m < c) :
    m = .down := by
  cases m with
  | up => exact absurd h (le_clampStep_up hc).1.not_gt
  | down => rfl
  | hold => exact absurd h (lt_irrefl c)

section Monotone

variable {α : Type*} [LinearOrder α] {high low a b : α} {d : β}

/-- **One move is monotone** in the counter and in the reading, between counters in the bounds:
wherever the reading changes the move, it changes it upwards. -/
theorem clampStep_mono (hc : c ∈ Set.Icc lo hi) (hd : d ∈ Set.Icc lo hi) (hcd : c ≤ d)
    (hab : a ≤ b) : clampStep lo hi c (move high low a) ≤ clampStep lo hi d (move high low b) := by
  cases ha : move high low a with
  | up =>
    rw [move_eq_up.mpr ((move_eq_up.mp ha).trans_le hab)]
    exact min_le_min_left hi (Order.succ_le_succ hcd)
  | down =>
    have hdown := (clampStep_down_le hc).1
    cases hb : move high low b with
    | up => exact hdown.trans (hcd.trans (le_clampStep_up hd).1)
    | down => exact max_le_max_left lo (Order.pred_le_pred hcd)
    | hold => exact hdown.trans hcd
  | hold =>
    cases hb : move high low b with
    | up => exact hcd.trans (le_clampStep_up hd).1
    | down =>
      have hlow := (move_eq_hold.mp ha).2.trans hab
      exact absurd (move_eq_down.mp hb).2 hlow.not_gt
    | hold => exact hcd

end Monotone

end Counter

section Steps

variable {lo hi c : ℤ}

/-- The moves that still change the counter where every reading asks for the same one; from beyond the
bound it pushes against, one. -/
def stepsLeft (lo hi c : ℤ) : Move → ℕ
  | .up => if c ≤ hi then (hi - c).toNat else 1
  | .down => if lo ≤ c then (c - lo).toNat else 1
  | .hold => 0

/-- A move that changes the counter leaves fewer of them. -/
theorem stepsLeft_clampStep_lt {m : Move} (h : clampStep lo hi c m ≠ c) :
    stepsLeft lo hi (clampStep lo hi c m) m < stepsLeft lo hi c m := by
  cases m with
  | up =>
    simp only [clampStep, stepsLeft, Order.succ_eq_add_one, min_le_left, if_true] at h ⊢
    split_ifs <;> omega
  | down =>
    simp only [clampStep, stepsLeft, Order.pred_eq_sub_one, le_max_left, if_true] at h ⊢
    split_ifs <;> omega
  | hold => exact absurd rfl h

end Steps

end InfraDemo.Hysteresis
