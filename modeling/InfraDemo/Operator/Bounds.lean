import InfraDemo.Operator.Step

/-!
# Bounds — where the replica count can go

A count in `[MinReplicas, MaxReplicas]` stays there over whole runs and moves by single steps.  A
count outside goes back in only as far as one step and the clamp on the side it moves to carry it.
-/

namespace InfraDemo.Operator

open InfraDemo.Go InfraDemo.Hysteresis

/-! ### Runs in bounds -/

variable {rt : Runtime} {w : World} {t : Tick}

/-- The target exists with a count in the bounds of the spec. -/
def World.TargetInBounds (w : World) : Prop :=
  ∃ d, w.target = some d ∧ w.wl.spec.InBounds d.count

theorem disturb_targetInBounds (ht : t.Undisturbed w.wl.deployKey) (hb : w.TargetInBounds) :
    (w.disturb t).TargetInBounds := by
  obtain ⟨d, hd, hin⟩ := hb
  exact ⟨d, by rwa [disturb_target ht], by rwa [disturb_wl ht]⟩

variable (rt) in
/-- What an undisturbed call does to a target in bounds. -/
theorem call_in_bounds (ht : t.Undisturbed w.wl.deployKey) (hmin : 1 ≤ w.wl.spec.minReplicas)
    {d : Deployment} (hd : w.target = some d) (hb : w.wl.spec.InBounds d.count) :
    ∃ d', (next rt w t).target = some d' ∧ w.wl.spec.InBounds d'.count ∧
      |d'.count.toInt - d.count.toInt| ≤ 1 ∧
      ((call rt w t).FetchFailed rt ∨ (call rt w t).ReadFailed ∨ (call rt w t).UpdateFailed →
        d' = d) := by
  have hd' : (w.disturb t).target = some d := by rwa [disturb_target ht]
  have htarget : (next rt w t).target =
      (call rt w t).after.deployments.get (w.disturb t).wl.deployKey := by
    rw [World.target, next_deployKey rt w ht, next, disturb_wl ht]
  rcases call_target rt hd' with h | ⟨m, s, hs, h0, h⟩
  · exact ⟨d, htarget.trans h, hb, by simp, fun _ => rfl⟩
  · simp only [desiredOf, disturb_wl ht] at h0
    obtain ⟨hin, hstep⟩ := desired_in_bounds hmin hb h0
    refine ⟨_, htarget.trans h, ?_, ?_, fun hf => ?_⟩
    · simpa only [submitted_count, desiredOf, disturb_wl ht] using hin
    · simpa only [submitted_count, desiredOf, disturb_wl ht] using hstep
    · obtain ⟨h1, h2, h3⟩ := not_failed_of_scaled hs
      rcases hf with hf | hf | hf
      · exact absurd hf h1
      · exact absurd hf h2
      · exact absurd hf h3

variable (rt) in
/-- While nobody else writes the spec or the target, every call of a run that starts with the target
in bounds is made in such a world. -/
theorem calls_in_bounds {ts : List Tick} (hmin : 1 ≤ w.wl.spec.minReplicas)
    (hb : w.TargetInBounds) (hts : ∀ t ∈ ts, t.Undisturbed w.wl.deployKey) :
    ∀ c ∈ calls rt w ts, ∃ v t, c = call rt v t ∧ t.Undisturbed v.wl.deployKey ∧
      v.wl.spec = w.wl.spec ∧ v.TargetInBounds := by
  refine Run.forall_records (I := fun v => v.wl.spec = w.wl.spec ∧
    v.wl.deployKey = w.wl.deployKey ∧ v.TargetInBounds) ?_ ⟨rfl, rfl, hb⟩ hts
  rintro v t ht ⟨hspec, hkey, d, hd, hv⟩
  rw [← hkey] at ht
  rw [← hspec] at hmin ⊢
  obtain ⟨d', hd', hin, -⟩ := call_in_bounds rt ht hmin hd hv
  have hspec' : (next rt v t).wl.spec = v.wl.spec := (next_spec rt v ht).1
  exact ⟨⟨hspec', (next_deployKey rt v ht).trans hkey, d', hd', by rwa [hspec']⟩,
    v, t, rfl, ht, rfl, d, hd, hv⟩

/-- **Replica bounds over whole runs.**  While nobody else writes the spec or the target, every call
of a run that starts with the target in bounds leaves it in bounds, at most one away from before, and
untouched if the metrics fetch, the Deployment read or the Deployment Update failed. -/
theorem replicas_stay_in_bounds {ts : List Tick} (hmin : 1 ≤ w.wl.spec.minReplicas)
    (hb : w.TargetInBounds) (hts : ∀ t ∈ ts, t.Undisturbed w.wl.deployKey) :
    ∀ c ∈ calls rt w ts, ∃ d d', c.start.target = some d ∧ c.after.target = some d' ∧
      w.wl.spec.InBounds d'.count ∧ |d'.count.toInt - d.count.toInt| ≤ 1 ∧
      (c.FetchFailed rt ∨ c.ReadFailed ∨ c.UpdateFailed → d' = d) := by
  intro c hc
  obtain ⟨v, t, rfl, ht, hspec, d, hd, hv⟩ := calls_in_bounds rt hmin hb hts c hc
  rw [← hspec] at hmin ⊢
  obtain ⟨d', hd', hin, hone, hsame⟩ := call_in_bounds rt ht hmin hd hv
  refine ⟨d, d', ?_, hd', hin, hone, hsame⟩
  rw [call_start, disturb_target ht]
  exact hd

/-- The call on the sample object with three replicas that reads 90%. -/
def cappedCall : Call :=
  call (.exact 0) (.fresh .sample (some 3)) (.serving "vllm_kv_cache_usage_perc 0.9")

theorem replicas_stay_in_bounds_sample :
    ∃ d d', cappedCall.start.target = some d ∧ cappedCall.after.target = some d' ∧
      WorkloadLifecycleSpec.sample.InBounds d'.count ∧ |d'.count.toInt - d.count.toInt| ≤ 1 ∧
      (cappedCall.FetchFailed (.exact 0) ∨ cappedCall.ReadFailed ∨ cappedCall.UpdateFailed →
        d' = d) :=
  replicas_stay_in_bounds (w := .fresh .sample (some 3)) (by decide) ⟨_, rfl, by decide⟩
    (fun t (ht : t ∈ [Tick.serving "vllm_kv_cache_usage_perc 0.9"]) => by
      rw [List.mem_singleton.mp ht]
      exact undisturbed_serving _ _)
    cappedCall (List.mem_singleton.mpr rfl)

/-! ### Counts out of bounds -/

/-- **A successful call reaches the bounds exactly where one step does.**  The desired count is
clamped only on the side it moves to, and a reading inside the band leaves the count where it is. -/
theorem successful_call_in_bounds_iff (hs : (call rt w t).Succeeded rt)
    (hle : (w.disturb t).wl.spec.minReplicas ≤ (w.disturb t).wl.spec.maxReplicas)
    (hc : ∀ d, (w.disturb t).target = some d → 0 ≤ d.count) :
    ∃ m d d', readAnswer rt.toPlatform t.metrics = .ok m ∧ (w.disturb t).target = some d ∧
      (call rt w t).after.deployments.get (w.disturb t).wl.deployKey = some d' ∧
      ((w.disturb t).wl.spec.InBounds d'.count ↔
        (w.disturb t).wl.spec.Reaches m.kvCacheUsagePercent d.count) := by
  have hx := exits_callExit rt w t
  obtain ⟨m, d, hh | ⟨s, hh⟩⟩ := succeeded_iff.mp hs
  · rw [hh] at hx
    cases hx with
    | holding get fetch read same =>
      have hd := (deployAnswer_ok read).2
      have h0 := Int32.le_iff_toInt_le.mp (hc d hd)
      rw [← same] at h0
      refine ⟨m, d, d, fetch, hd, by rw [call_after, hh]; exact hd, ?_⟩
      rw [← desired_in_bounds_iff hle (hc d hd) h0]
      exact iff_of_eq (congrArg _ same.symm)
  · rw [hh] at hx
    obtain ⟨hd, h0, -⟩ := hx.scaled_spec
    have hget := hx.scaled_get (w.disturb t).wl.deployKey
    rw [if_pos rfl] at hget
    cases hx with
    | scaled get fetch read change update =>
      have hafter : (call rt w t).after.deployments = s := by
        rw [call_after, hh]
        rfl
      rw [← hafter] at hget
      exact ⟨m, d, _, fetch, hd, hget, desired_in_bounds_iff hle (hc d hd) h0⟩

/-- The call on a sample object with five replicas that reads 50%. -/
def heldCall : Call :=
  call (.exact 0) (.fresh .sample (some 5)) (.serving "vllm_kv_cache_usage_perc 0.5")

/-- It holds at five. -/
theorem heldCall_exit : ∃ d, d.count = 5 ∧
    callExit (.exact 0) (.fresh .sample (some 5)) (.serving "vllm_kv_cache_usage_perc 0.5") =
      .holding { kvCacheUsagePercent := 50 } d ∧
    heldCall.after.deployments.get heldCall.start.wl.deployKey = some d := by
  have hx := callExit_eq (.exact 0) (.fresh .sample (some 5)) _
    (.holding rfl readAnswer_half rfl (by decide))
  refine ⟨_, rfl, hx, ?_⟩
  rw [heldCall, call_after, hx]
  rfl

theorem heldCall_succeeded : heldCall.Succeeded (.exact 0) := by
  obtain ⟨d, -, hx, -⟩ := heldCall_exit
  exact succeeded_iff.mpr ⟨_, d, .inl hx⟩

theorem successful_call_in_bounds_iff_sample :
    ∃ m d d', readAnswer (Runtime.exact 0).toPlatform heldCall.tick.metrics = .ok m ∧
      heldCall.start.target = some d ∧
      heldCall.after.deployments.get heldCall.start.wl.deployKey = some d' ∧
      (heldCall.start.wl.spec.InBounds d'.count ↔
        heldCall.start.wl.spec.Reaches m.kvCacheUsagePercent d.count) :=
  successful_call_in_bounds_iff heldCall_succeeded (by decide) fun d hd => by cases hd; decide

/-- A reading inside the band leaves a count above `MaxReplicas` where it is. -/
theorem holding_keeps_out_of_bounds :
    ¬ ∀ (rt : Runtime) (w : World) (t : Tick),
      1 ≤ (w.disturb t).wl.spec.minReplicas →
      (w.disturb t).wl.spec.minReplicas ≤ (w.disturb t).wl.spec.maxReplicas →
      (∀ d, (w.disturb t).target = some d → 0 ≤ d.count) → (call rt w t).Succeeded rt →
      ∃ d, (call rt w t).after.deployments.get (w.disturb t).wl.deployKey = some d ∧
        (w.disturb t).wl.spec.InBounds d.count := by
  intro h
  obtain ⟨d, hd, hin⟩ := h _ _ _ (by decide) (by decide) (fun d hd => by cases hd; decide)
    heldCall_succeeded
  obtain ⟨e, he, -, hafter⟩ := heldCall_exit
  obtain rfl : d = e := Option.some_inj.mp (hd.symm.trans hafter)
  rw [he] at hin
  exact absurd hin (by decide)

end InfraDemo.Operator
