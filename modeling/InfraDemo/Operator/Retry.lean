import InfraDemo.Operator.Trace
import InfraDemo.Operator.Writes

/-!
# Retry — how a failed scaling ends

Nothing names a recovery from a rejected Update: the ScaledUp or ScaledDown event of the next change
has to.  It does unless the next call that can decide leaves the count as it is, which depends on its
own reading, the count it finds and the spec of that moment (`Keeps`).
-/

namespace InfraDemo.Operator

open InfraDemo.Go InfraDemo.Hysteresis

/-! ### Counts that stay -/

/-- On usage `u` the spec leaves the count `c` as it is: inside the band, or at the bound the reading
pushes against.  (At the two ends of int32 the step wraps past the bound.) -/
def WorkloadLifecycleSpec.Keeps (spec : WorkloadLifecycleSpec) (u c : Int32) : Prop :=
  match spec.asks u with
  | .up => c = spec.maxReplicas ∧ c.toInt < 2 ^ 31 - 1
  | .down => c = spec.minReplicas ∧ -2 ^ 31 < c.toInt
  | .hold => True

/-- **The desired count is the current one exactly where the spec keeps it.** -/
theorem desired_eq_iff {spec : WorkloadLifecycleSpec} {u c : Int32} :
    computeDesiredReplicas c u spec = c ↔ spec.Keeps u c := by
  have hlt := c.toInt_lt
  have hge := c.le_toInt
  have hdes := @computeDesiredReplicas_toInt spec c u
  rw [WorkloadLifecycleSpec.Keeps, ← Int32.toInt_inj]
  cases hm : spec.asks u with
  | up =>
    rw [hm] at hdes
    by_cases hc : c.toInt < 2 ^ 31 - 1
    · have hmax : c = spec.maxReplicas ↔ c.toInt = spec.maxReplicas.toInt := Int32.toInt_inj.symm
      rw [hdes (fun _ => hc) (by simp)]
      simp only [clampStep, Order.succ_eq_add_one, hmax, and_iff_left hc]
      omega
    · have hw := computeDesiredReplicas_wrap (c := c) hm (by omega)
      rw [hw]
      exact iff_of_false (by omega) fun h => hc h.2
  | down =>
    rw [hm] at hdes
    by_cases hc : -2 ^ 31 < c.toInt
    · have hmin : c = spec.minReplicas ↔ c.toInt = spec.minReplicas.toInt := Int32.toInt_inj.symm
      rw [hdes (by simp) (fun _ => hc)]
      simp only [clampStep, Order.pred_eq_sub_one, hmin, and_iff_left hc]
      omega
    · have hw := computeDesiredReplicas_wrap_down (c := c) hm (by omega)
      rw [hw]
      exact iff_of_false (by omega) fun h => hc h.2
  | hold =>
    rw [hm] at hdes
    exact iff_of_true (hdes (by simp) (by simp)) trivial

/-! ### Announced recoveries -/

/-- The call emits a ScaledUp or ScaledDown event. -/
def Call.AnnouncesScaling (c : Call) : Prop :=
  ∃ o ∈ [Outcome.scaledUp, .scaledDown], ∃ e ∈ c.events, e.Shows (.scaled o)

/-- The call reads its object, its metrics and its target, and the spec keeps the count it finds. -/
def Call.Steady (rt : Runtime) (c : Call) : Prop :=
  c.tick.getErr = none ∧ ∃ m d, readAnswer rt.toPlatform c.tick.metrics = .ok m ∧
    deployAnswer c.tick c.start.deployments c.start.wl.deployKey = .ok d ∧
    c.start.wl.spec.Keeps m.kvCacheUsagePercent d.count

variable {rt : Runtime} {w : World} {t : Tick}

/-- A steady call is one that holds. -/
theorem steady_iff : (call rt w t).Steady rt ↔ (call rt w t).outcome? rt = some .held := by
  have hx := exits_callExit rt w t
  constructor
  · rintro ⟨hget, m, d, hm, hd, hkeep⟩
    rw [outcome?_call, callExit_eq rt w t (.holding hget hm hd (desired_eq_iff.mpr hkeep))]
    rfl
  · intro h
    rw [outcome?_call] at h
    generalize callExit rt w t = x at hx h
    cases hx with
    | holding get fetch read same => exact ⟨get, _, _, fetch, read, desired_eq_iff.mp same⟩
    | scaled get fetch read change update =>
      have hne := Option.some_inj.mp h
      split_ifs at hne
    | _ => cases h

variable (rt) in
/-- The calls that announce a scaling are those that scaled. -/
theorem announcesScaling_iff : (call rt w t).AnnouncesScaling ↔
    ∃ o ∈ [Outcome.scaledUp, .scaledDown], (call rt w t).outcome? rt = some o := by
  have table : ∀ p : Option Outcome, ∀ o ∈ [Outcome.scaledUp, .scaledDown],
      Mark.scaled o ∈ announced p o := by decide
  constructor
  · rintro ⟨o, ho, e, he, hs⟩
    rw [call_events] at he
    obtain ⟨p, o', ho', hmem⟩ := mem_announced he hs
    obtain ⟨rfl, -⟩ := scaled_mem_announced p o' o hmem
    exact ⟨o', ho, ho'⟩
  · rintro ⟨o, ho, hout⟩
    obtain ⟨p, hp⟩ := exists_recorded (w.disturb t).wl.status.lastTransitionReason
    rw [outcome?_call] at hout
    have hcount := countP_shows (events_show hout hp) (.scaled o)
    have hpos : 0 < (announced p o).count (.scaled o) := List.count_pos_iff.mpr (table p o ho)
    rw [← hcount, List.countP_pos_iff] at hpos
    obtain ⟨e, he, hs⟩ := hpos
    exact ⟨o, ho, e, by rwa [call_events], by simpa using hs⟩

/-- The calls that record Degraded=False. -/
theorem recordsDegraded_false_iff : (call rt w t).RecordsDegraded .conditionFalse ↔
    ∃ o ∈ [Outcome.scaledUp, .scaledDown, .held], (call rt w t).outcome? rt = some o := by
  have table : ∀ o : Outcome, o.degraded = .conditionFalse ↔
      o ∈ [Outcome.scaledUp, .scaledDown, .held] := by decide
  rw [recordsDegraded_iff]
  constructor
  · rintro ⟨u, hu, hdeg⟩
    obtain ⟨o, ho, -, -, hdeg'⟩ := outcome_of_update hu
    exact ⟨o, (table o).mp (hdeg'.symm.trans hdeg), ho⟩
  · rintro ⟨o, hmem, ho⟩
    obtain ⟨u, hu, -, -, hdeg⟩ := update_of_outcome ho
    exact ⟨u, hu, hdeg.trans ((table o).mpr hmem)⟩

/-- The call starts with the reason ScaleFailed recorded. -/
def Call.AfterFailedScale (c : Call) : Prop :=
  c.start.wl.status.lastTransitionReason = reasonScaleFailed

/-- **When a recovery from a failed scaling is announced.**  In every run, a call that starts after a
failed scaling and ends by recording Degraded=False announces a scaling, unless it is steady. -/
theorem recovery_announced_iff {ts : List Tick} : ∀ c ∈ calls rt w ts,
    (c.AfterFailedScale → c.RecordsDegraded .conditionFalse → c.AnnouncesScaling) ↔
      ¬ (c.AfterFailedScale ∧ c.Steady rt) := by
  intro c hc
  obtain ⟨v, t, -, rfl⟩ := mem_calls rt hc
  rw [recordsDegraded_false_iff, announcesScaling_iff rt, steady_iff]
  constructor
  · rintro h ⟨hafter, hheld⟩
    obtain ⟨o, ho, hout⟩ := h hafter ⟨.held, by simp, hheld⟩
    obtain rfl : o = .held := Option.some_inj.mp (hout.symm.trans hheld)
    exact absurd ho (by decide)
  · rintro h hafter ⟨o, ho, hout⟩
    have hne : o ≠ .held := by
      rintro rfl
      exact h ⟨hafter, hout⟩
    exact ⟨o, by simpa [hne] using ho, hout⟩

/-- An almost full cache, and a refused Update. -/
def Tick.refused : Tick :=
  { Tick.serving "vllm_kv_cache_usage_perc 0.9" with
    updateErr := some { notFound := false, text := "the object has been modified" } }

/-- The call after it, on the sample object with two replicas, that gets `body`. -/
def retryCall (body : String) : Call :=
  call (.exact 0) (next (.exact 0) (.fresh .sample (some 2)) .refused) (.serving body)

theorem retryCall_mem (body : String) :
    retryCall body ∈ calls (.exact 0) (.fresh .sample (some 2)) [.refused, .serving body] :=
  List.mem_pair.mpr (.inr rfl)

theorem recovery_announced_iff_sample :
    ((retryCall "vllm_kv_cache_usage_perc 0.9").AfterFailedScale →
      (retryCall "vllm_kv_cache_usage_perc 0.9").RecordsDegraded .conditionFalse →
      (retryCall "vllm_kv_cache_usage_perc 0.9").AnnouncesScaling) ↔
      ¬ ((retryCall "vllm_kv_cache_usage_perc 0.9").AfterFailedScale ∧
        (retryCall "vllm_kv_cache_usage_perc 0.9").Steady (.exact 0)) :=
  recovery_announced_iff _ (retryCall_mem _)

/-- What the refused Update leaves behind. -/
theorem after_refused : ∃ v, v = next (.exact 0) (.fresh .sample (some 2)) .refused ∧
    v.wl.spec = .sample ∧ (∃ d, v.target = some d) ∧
    v.wl.status.lastTransitionReason = reasonScaleFailed := by
  obtain ⟨m, d, err, hd, hx⟩ : ∃ m d err, (World.fresh .sample (some 2)).target = some d ∧
      callExit (.exact 0) (.fresh .sample (some 2)) .refused = .scaleFailed m d err :=
    ⟨_, _, _, rfl, callExit_eq (.exact 0) _ _ (.scaleFailed rfl readAnswer_ninety rfl (by decide) rfl)⟩
  have hu : Tick.refused.Undisturbed (World.fresh .sample (some 2)).wl.deployKey :=
    ⟨rfl, rfl, fun _ hw => absurd hw List.not_mem_nil⟩
  refine ⟨_, rfl, (next_spec (.exact 0) _ hu).1, ⟨d, ?_⟩, ?_⟩
  · rw [World.target, next_deployKey (.exact 0) _ hu, next, call_after, hx]
    exact hd
  · have hp : (call (.exact 0) (.fresh .sample (some 2)) .refused).Persisted :=
      persisted_of_quiet (by decide)
    have ho : (call (.exact 0) (.fresh .sample (some 2)) .refused).outcome? (.exact 0) =
        some .updateFailed := by
      rw [outcome?_call, hx]
      rfl
    obtain ⟨o, ho', hrec⟩ := recorded_of_persisted hp
    obtain rfl : .updateFailed = o := Option.some_inj.mp (ho.symm.trans ho')
    exact hrec

/-- On the sample object, a call that reads 50% is steady. -/
theorem steady_of_half {v : World} (hspec : v.wl.spec = .sample) {d : Deployment}
    (hd : v.target = some d) :
    (call (.exact 0) v (.serving "vllm_kv_cache_usage_perc 0.5")).Steady (.exact 0) := by
  have hu := undisturbed_serving "vllm_kv_cache_usage_perc 0.5" v.wl.deployKey
  have hasks : WorkloadLifecycleSpec.sample.asks 50 = .hold := by decide
  refine ⟨rfl, _, d, readAnswer_half, deployAnswer_target rfl ?_, ?_⟩
  · rw [call_start, disturb_target hu]
    exact hd
  · rw [call_start, disturb_wl hu, hspec]
    simp only [WorkloadLifecycleSpec.Keeps, hasks]

/-- With the load gone, the call after a refused Update holds, and its recovery shows nowhere. -/
theorem held_recovery_is_silent :
    ¬ ∀ (rt : Runtime) (w : World) (ts : List Tick), w.wl.status = {} →
      AllPersist (calls rt w ts) → ∀ c ∈ calls rt w ts, c.AfterFailedScale →
        c.RecordsDegraded .conditionFalse → c.AnnouncesScaling := by
  intro h
  obtain ⟨v, hv, hspec, ⟨d, hd⟩, hreason⟩ := after_refused
  have hafter : (retryCall "vllm_kv_cache_usage_perc 0.5").AfterFailedScale := by
    rw [Call.AfterFailedScale, retryCall, ← hv, call_start, disturb_status]
    exact hreason
  have hheld := steady_iff.mp (steady_of_half hspec hd)
  rw [hv] at hheld
  obtain ⟨o, ho, hout⟩ := (announcesScaling_iff (.exact 0)).mp (h _ _ _ rfl
    (allPersist_of_quiet (by decide)) _ (retryCall_mem _) hafter
    (recordsDegraded_false_iff.mpr ⟨.held, by decide, hheld⟩))
  obtain rfl : o = .held := Option.some_inj.mp (hout.symm.trans hheld)
  exact absurd ho (by decide)

end InfraDemo.Operator
