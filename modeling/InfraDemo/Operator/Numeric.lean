import InfraDemo.Operator.Controller

/-!
# Numeric — the rule over unbounded integers and on the exact usage

The controller computes in two places with less than its rule speaks of.  The count is raised on
int32 before it is clamped, so at the largest int32 the clamp sees the wrapped sum
(`exactScaling_iff`).  The usage is a whole percentage, truncated before it is compared: that keeps
`usage < low` and makes `usage > high` a matter of the next whole percent (`decidesWhole_of_parse`).
-/

namespace InfraDemo.Operator

open InfraDemo.Go InfraDemo.Hysteresis

/-! ### int32 -/

section Replicas

variable {spec : WorkloadLifecycleSpec} {c u : Int32}

/-- The rule over unbounded integers. -/
def exactReplicas (spec : WorkloadLifecycleSpec) (currentReplicas usage : ℤ) : ℤ :=
  if usage > spec.kvCacheThresholdPercent.toInt then
    min spec.maxReplicas.toInt (currentReplicas + 1)
  else if usage < spec.kvCacheScaleDownThresholdPercent.toInt then
    max spec.minReplicas.toInt (currentReplicas - 1)
  else currentReplicas

/-- `computeDesiredReplicas` asks for the count of the exact rule, which is not negative, and the
addition or subtraction of its branch does not wrap. -/
structure ExactScaling (spec : WorkloadLifecycleSpec) (c u : Int32) : Prop where
  count : (computeDesiredReplicas c u spec).toInt = exactReplicas spec c.toInt u.toInt
  nonneg : 0 ≤ computeDesiredReplicas c u spec
  add : u > spec.kvCacheThresholdPercent → (c + 1).toInt = c.toInt + 1
  sub : u < spec.kvCacheScaleDownThresholdPercent → (c - 1).toInt = c.toInt - 1

theorem exactReplicas_eq : exactReplicas spec c.toInt u.toInt =
    clampStep spec.minReplicas.toInt spec.maxReplicas.toInt c.toInt (spec.asks u) := by
  unfold exactReplicas WorkloadLifecycleSpec.asks move
  simp only [gt_iff_lt]
  split_ifs <;> rfl

/-- **int32 is enough** except to scale up from the largest int32. -/
theorem exactScaling_iff (hs : spec.Admitted) (hc : 0 ≤ c) :
    ExactScaling spec c u ↔ ¬ (u > spec.kvCacheThresholdPercent ∧ c = Int32.maxValue) := by
  obtain ⟨hmin, hmax⟩ := hs.bounds_nonneg
  have hc0 : 0 ≤ c.toInt := Int32.le_iff_toInt_le.mp hc
  constructor
  · rintro h ⟨hu, rfl⟩
    have hadd := h.add hu
    rw [toInt_add_one_wrap rfl, Int32.toInt_maxValue] at hadd
    norm_num at hadd
  · intro hno
    have hup : u > spec.kvCacheThresholdPercent → c.toInt < 2 ^ 31 - 1 := fun hu =>
      lt_of_le_of_ne (Int.le_sub_one_of_lt c.toInt_lt) fun heq =>
        hno ⟨hu, Int32.toInt_inj.mp (heq.trans Int32.toInt_maxValue.symm)⟩
    have hcount := computeDesiredReplicas_toInt (c := c) (fun hm => hup (asks_eq_up.mp hm))
      fun _ => (by omega)
    refine ⟨hcount.trans exactReplicas_eq.symm, ?_, fun hu => toInt_add_one (hup hu),
      fun _ => toInt_sub_one (by omega)⟩
    rw [Int32.le_iff_toInt_le, hcount]
    exact le_clampStep hmin hmax hc0 _

theorem exactScaling_iff_sample : ExactScaling .sample 2 90 ↔
    ¬ ((90 : Int32) > WorkloadLifecycleSpec.sample.kvCacheThresholdPercent ∧
      (2 : Int32) = Int32.maxValue) :=
  exactScaling_iff sample_admitted (by decide)

/-- The sample asks for `-2^31` replicas after `2^31 - 1`. -/
theorem largest_count_wraps :
    ¬ ∀ (spec : WorkloadLifecycleSpec) (c u : Int32), spec.Admitted → 0 ≤ c →
      ExactScaling spec c u := by
  intro h
  have hneg : computeDesiredReplicas Int32.maxValue 90 .sample = Int32.minValue := by decide
  have h0 := (h .sample Int32.maxValue 90 sample_admitted (by decide)).nonneg
  rw [hneg] at h0
  exact absurd h0 (by decide)

end Replicas

/-! ### Truncation to whole percent -/

section Usage

variable {P : Platform} {spec : WorkloadLifecycleSpec} {v : ℚ} {u : Int32}

/-- The branch taken on the usage `u` is the one that the thresholds ask for on `100 * v`. -/
structure DecidesExactly (spec : WorkloadLifecycleSpec) (v : ℚ) (u : Int32) : Prop where
  up : spec.asks u = .up ↔ 100 * v > spec.kvCacheThresholdPercent.toInt
  down : spec.asks u = .down ↔ 100 * v < spec.kvCacheScaleDownThresholdPercent.toInt
  hold : spec.asks u = .hold ↔ spec.kvCacheScaleDownThresholdPercent.toInt ≤ 100 * v ∧
    100 * v ≤ spec.kvCacheThresholdPercent.toInt

/-- The usage of a body whose last KV-cache sample is `v`. -/
theorem usage_of_last {text f : Text} {m : Metrics}
    (hparse : parsePrometheusMetrics P text = .ok m)
    (hlast : (samples kvCacheName text).getLast? = some f)
    (hv : parseFloat P f = .ok (.finite v)) : m.kvCacheUsagePercent = usagePercent P (.finite v) := by
  obtain ⟨fs, hfs⟩ := List.getLast?_eq_some_iff.mp hlast
  rw [(parse_ok hparse).2, hfs, lastUsage_concat hv]

/-- Where the product is exact and fits, the usage is its floor. -/
theorem usagePercent_floor (hmul : P.unit.mul v 100 = v * 100) (h0 : 0 ≤ v)
    (hlt : 100 * v < 2 ^ 31) : (usagePercent P (.finite v)).toInt = ⌊100 * v⌋ := by
  have htrunc : truncate (P.unit.mul v 100) = ⌊100 * v⌋ := by
    rw [hmul, mul_comm, truncate, if_pos (by positivity)]
  have hge : 0 ≤ ⌊100 * v⌋ := Int.floor_nonneg.mpr (by positivity)
  have hle : ⌊100 * v⌋ < 2 ^ 31 := by
    rw [Int.floor_lt]
    exact_mod_cast hlt
  show ((Float64.finite (P.unit.mul v 100)).toInt32 P).toInt = ⌊100 * v⌋
  rw [toInt32_finite P (by rw [htrunc]; omega) (by rw [htrunc]; exact hle), htrunc]

/-- The branch taken on the usage `u` is the one that the thresholds ask for on `100 * v` in whole
percent: up from the next percent above `KVCacheThresholdPercent`. -/
structure DecidesWhole (spec : WorkloadLifecycleSpec) (v : ℚ) (u : Int32) : Prop where
  up : spec.asks u = .up ↔ spec.kvCacheThresholdPercent.toInt + 1 ≤ 100 * v
  down : spec.asks u = .down ↔ 100 * v < spec.kvCacheScaleDownThresholdPercent.toInt
  hold : spec.asks u = .hold ↔ spec.kvCacheScaleDownThresholdPercent.toInt ≤ 100 * v ∧
    100 * v < spec.kvCacheThresholdPercent.toInt + 1

theorem decidesWhole_floor
    (hle : spec.kvCacheScaleDownThresholdPercent ≤ spec.kvCacheThresholdPercent)
    (hu : u.toInt = ⌊100 * v⌋) : DecidesWhole spec v u := by
  rw [Int32.le_iff_toInt_le] at hle
  refine ⟨?_, ?_, ?_⟩
  · rw [WorkloadLifecycleSpec.asks, move_eq_up, hu, ← Int.add_one_le_iff, Int.le_floor]
    push_cast
    rfl
  · rw [WorkloadLifecycleSpec.asks, move_eq_down, hu, ← Int.floor_lt]
    omega
  · rw [WorkloadLifecycleSpec.asks, move_eq_hold, hu, ← Int.lt_add_one_iff, Int.floor_lt,
      Int.le_floor, and_comm]
    push_cast
    rfl

/-- **The decision on whole percent.**  On a body whose last KV-cache sample is `v ≥ 0`, the
controller scales up iff `100 * v` is at least one more than `KVCacheThresholdPercent`, down iff it
is below `KVCacheScaleDownThresholdPercent`, and holds otherwise. -/
theorem decidesWhole_of_parse {text f : Text} {m : Metrics}
    (hle : spec.kvCacheScaleDownThresholdPercent ≤ spec.kvCacheThresholdPercent)
    (hparse : parsePrometheusMetrics P text = .ok m)
    (hlast : (samples kvCacheName text).getLast? = some f)
    (hv : parseFloat P f = .ok (.finite v)) (hmul : P.unit.mul v 100 = v * 100) (h0 : 0 ≤ v)
    (hlt : 100 * v < 2 ^ 31) : DecidesWhole spec v m.kvCacheUsagePercent := by
  refine decidesWhole_floor hle ?_
  rw [usage_of_last hparse hlast hv, usagePercent_floor hmul h0 hlt]

theorem decidesWhole_of_parse_half : DecidesWhole .sample (1 / 2) 50 := by
  have hparse : parsePrometheusMetrics (Runtime.exact 0).toPlatform
      (lit "vllm_kv_cache_usage_perc 0.5") = .ok { kvCacheUsagePercent := 50 } := by
    decide +kernel
  have hlast : (samples kvCacheName (lit "vllm_kv_cache_usage_perc 0.5")).getLast? =
      some (lit "0.5") := by decide +kernel
  have hv : parseFloat (Runtime.exact 0).toPlatform (lit "0.5") = .ok (.finite (1 / 2)) := by
    decide +kernel
  exact decidesWhole_of_parse (by decide) hparse hlast hv rfl (by norm_num) (by norm_num)

/-- A usage of 80.5% is not above 80. -/
theorem half_point_holds :
    ¬ ∀ (P : Platform) (spec : WorkloadLifecycleSpec) (text f : Text) (m : Metrics) (v : ℚ),
      0 ≤ spec.kvCacheThresholdPercent → spec.kvCacheThresholdPercent ≤ 100 →
      spec.kvCacheScaleDownThresholdPercent ≤ spec.kvCacheThresholdPercent →
      parsePrometheusMetrics P text = .ok m → (samples kvCacheName text).getLast? = some f →
      parseFloat P f = .ok (.finite v) → P.unit.mul v 100 = v * 100 → 0 ≤ v →
      100 * v < 2 ^ 31 → DecidesExactly spec v m.kvCacheUsagePercent := by
  intro h
  have hex := h (Runtime.exact 0).toPlatform .sample
    (lit "vllm_kv_cache_usage_perc 0.805") (lit "0.805") { kvCacheUsagePercent := 80 } (161 / 200)
    (by decide) (by decide) (by decide) (by decide +kernel) (by decide +kernel)
    (by decide +kernel) rfl (by norm_num) (by norm_num)
  have hup := hex.up.mpr (by
    show ((80 : ℤ) : ℚ) < 100 * (161 / 200)
    norm_num)
  exact absurd hup (by decide)

end Usage

end InfraDemo.Operator
