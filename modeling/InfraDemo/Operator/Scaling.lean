import Mathlib.Algebra.Order.SuccPred
import Mathlib.Data.Int.SuccPred
import Mathlib.Order.Interval.Set.Basic
import Mathlib.Tactic.NormNum
import InfraDemo.Lib.Hysteresis
import InfraDemo.Operator.Types

/-!
# Scaling — `computeDesiredReplicas` and the rule it computes

The source computes on int32 and clamps after the addition, so at the largest int32 the addition
wraps.  `computeDesiredReplicas_toInt` relates it to `Hysteresis.clampStep` on the integers wherever
nothing wraps, `computeDesiredReplicas_wrap` says what happens where it does.
-/

namespace InfraDemo.Operator

open InfraDemo.Hysteresis

/-- The hysteresis-band rule of the source. -/
def computeDesiredReplicas (currentReplicas kvCacheUsagePercent : Int32)
    (spec : WorkloadLifecycleSpec) : Int32 :=
  if kvCacheUsagePercent > spec.kvCacheThresholdPercent then
    let desired := currentReplicas + 1
    if desired > spec.maxReplicas then spec.maxReplicas else desired
  else if kvCacheUsagePercent < spec.kvCacheScaleDownThresholdPercent then
    let desired := currentReplicas - 1
    if desired < spec.minReplicas then spec.minReplicas else desired
  else currentReplicas

/-! ### The rule on the integers -/

/-- The branch of `computeDesiredReplicas` that a usage takes. -/
def WorkloadLifecycleSpec.asks (spec : WorkloadLifecycleSpec) (usage : Int32) : Move :=
  move spec.kvCacheThresholdPercent.toInt spec.kvCacheScaleDownThresholdPercent.toInt usage.toInt

/-- `MinReplicas ≤ c ≤ MaxReplicas`. -/
def WorkloadLifecycleSpec.InBounds (spec : WorkloadLifecycleSpec) (c : Int32) : Prop :=
  spec.minReplicas.toInt ≤ c.toInt ∧ c.toInt ≤ spec.maxReplicas.toInt

instance (spec : WorkloadLifecycleSpec) (c : Int32) : Decidable (spec.InBounds c) :=
  inferInstanceAs (Decidable (_ ∧ _))

variable {spec : WorkloadLifecycleSpec} {c u : Int32}

theorem asks_eq_up : spec.asks u = .up ↔ u > spec.kvCacheThresholdPercent := by
  rw [WorkloadLifecycleSpec.asks, move_eq_up, gt_iff_lt, Int32.lt_iff_toInt_lt]

theorem asks_eq_down : spec.asks u = .down ↔
    u ≤ spec.kvCacheThresholdPercent ∧ u < spec.kvCacheScaleDownThresholdPercent := by
  rw [WorkloadLifecycleSpec.asks, move_eq_down, Int32.lt_iff_toInt_lt, Int32.le_iff_toInt_le]

theorem asks_eq_hold : spec.asks u = .hold ↔
    u ≤ spec.kvCacheThresholdPercent ∧ spec.kvCacheScaleDownThresholdPercent ≤ u := by
  rw [WorkloadLifecycleSpec.asks, move_eq_hold, Int32.le_iff_toInt_le, Int32.le_iff_toInt_le]

theorem toInt_add_one (h : c.toInt < 2 ^ 31 - 1) : (c + 1).toInt = c.toInt + 1 := by
  have := c.le_toInt
  rw [Int32.toInt_add, Int32.toInt_one]
  exact Int.bmod_eq_of_le (by norm_num; omega) (by norm_num; omega)

theorem toInt_add_one_wrap (h : c.toInt = 2 ^ 31 - 1) : (c + 1).toInt = -2 ^ 31 := by
  rw [Int32.toInt_add, h]
  decide

theorem toInt_sub_one (h : -2 ^ 31 < c.toInt) : (c - 1).toInt = c.toInt - 1 := by
  have := c.toInt_lt
  rw [Int32.toInt_sub, Int32.toInt_one]
  exact Int.bmod_eq_of_le (by norm_num; omega) (by norm_num; omega)

theorem toInt_sub_one_wrap (h : c.toInt = -2 ^ 31) : (c - 1).toInt = 2 ^ 31 - 1 := by
  rw [Int32.toInt_sub, h]
  decide

/-- **The source follows the rule** unless a scale-up starts at the largest int32 or a scale-down at
the smallest. -/
theorem computeDesiredReplicas_toInt (hup : spec.asks u = .up → c.toInt < 2 ^ 31 - 1)
    (hdown : spec.asks u = .down → -2 ^ 31 < c.toInt) :
    (computeDesiredReplicas c u spec).toInt =
      clampStep spec.minReplicas.toInt spec.maxReplicas.toInt c.toInt (spec.asks u) := by
  unfold computeDesiredReplicas
  cases hm : spec.asks u with
  | up =>
    have hc := toInt_add_one (hup hm)
    rw [if_pos (asks_eq_up.mp hm)]
    simp only [clampStep, Order.succ_eq_add_one, ← hc, gt_iff_lt, Int32.lt_iff_toInt_lt]
    split_ifs with h
    · exact (min_eq_left h.le).symm
    · exact (min_eq_right (not_lt.mp h)).symm
  | down =>
    have hc := toInt_sub_one (hdown hm)
    obtain ⟨h1, h2⟩ := asks_eq_down.mp hm
    rw [if_neg (by rwa [gt_iff_lt, Int32.not_lt]), if_pos h2]
    simp only [clampStep, Order.pred_eq_sub_one, ← hc, Int32.lt_iff_toInt_lt]
    split_ifs with h
    · exact (max_eq_left h.le).symm
    · exact (max_eq_right (not_lt.mp h)).symm
  | hold =>
    obtain ⟨h1, h2⟩ := asks_eq_hold.mp hm
    rw [if_neg (by rwa [gt_iff_lt, Int32.not_lt]), if_neg (by rwa [Int32.not_lt])]
    rfl

/-- At the largest int32 a scale-up asks for the smallest int32: the wrapped sum is below
`MaxReplicas`, so the clamp lets it pass. -/
theorem computeDesiredReplicas_wrap (hm : spec.asks u = .up) (hc : c.toInt = 2 ^ 31 - 1) :
    (computeDesiredReplicas c u spec).toInt = -2 ^ 31 := by
  have hw := toInt_add_one_wrap hc
  have hle := spec.maxReplicas.le_toInt
  unfold computeDesiredReplicas
  rw [if_pos (asks_eq_up.mp hm)]
  simp only [gt_iff_lt, Int32.lt_iff_toInt_lt, hw]
  rw [if_neg (by omega), hw]

/-- At the smallest int32 a scale-down asks for the largest. -/
theorem computeDesiredReplicas_wrap_down (hm : spec.asks u = .down) (hc : c.toInt = -2 ^ 31) :
    (computeDesiredReplicas c u spec).toInt = 2 ^ 31 - 1 := by
  have hw := toInt_sub_one_wrap hc
  have hlt := spec.minReplicas.toInt_lt
  obtain ⟨h1, h2⟩ := asks_eq_down.mp hm
  unfold computeDesiredReplicas
  rw [if_neg (by rwa [gt_iff_lt, Int32.not_lt]), if_pos h2]
  simp only [Int32.lt_iff_toInt_lt, hw]
  rw [if_neg (by omega), hw]

theorem WorkloadLifecycleSpec.Admitted.bounds_nonneg (hs : spec.Admitted) :
    0 ≤ spec.minReplicas.toInt ∧ 0 ≤ spec.maxReplicas.toInt := by
  have hmin := Int32.le_iff_toInt_le.mp hs.min_ge
  have hmax := Int32.le_iff_toInt_le.mp hs.max_ge
  rw [Int32.toInt_one] at hmin hmax
  omega

/-- A count in bounds never wraps downwards. -/
theorem WorkloadLifecycleSpec.InBounds.gt_min (hmin : 1 ≤ spec.minReplicas) (h : spec.InBounds c) :
    -2 ^ 31 < c.toInt := by
  have h1 := Int32.le_iff_toInt_le.mp hmin
  have h2 : spec.minReplicas.toInt ≤ c.toInt := h.1
  rw [Int32.toInt_one] at h1
  omega

end InfraDemo.Operator
