import InfraDemo.Operator.Bounds
import InfraDemo.Operator.Events

/-!
# Flapping — runs that scale both ways

With ordered thresholds a reading that raised the count and one that lowered it lie on both sides of
the scale-up threshold, on which the controller holds.  The schema does not order them: with crossed
thresholds and room between the bounds no percentage holds, and two readings of one run are enough to
go up and down again.
-/

namespace InfraDemo.Operator

open InfraDemo.Go InfraDemo.Hysteresis

variable {rt : Runtime} {w : World} {t : Tick}

/-- A ScaledUp or ScaledDown event reports an accepted change in its direction. -/
theorem changes_of_event {e : Event} {o : Outcome} (he : e ∈ (call rt w t).events)
    (hs : e.Shows (.scaled o)) : (∃ u, (call rt w t).Reads rt u) ∧ ∃ a b,
      (call rt w t).Changes a b ∧ (o = .scaledUp → a < b) ∧ (o = .scaledDown → b < a) := by
  rw [call_events] at he
  obtain ⟨p, o', ho, hm⟩ := mem_announced he hs
  obtain ⟨rfl, hdir⟩ := scaled_mem_announced p o' o hm
  have hx := exits_callExit rt w t
  generalize hcx : callExit rt w t = x at hx ho
  cases hx with
  | @scaled m d s get fetch read change update =>
    refine ⟨⟨_, m, fetch, rfl⟩, _, _, changes_of_scaled hcx, ?_, ?_⟩
    · rintro rfl
      by_cases hlt : desiredOf (w.disturb t) m d < d.count
      · simp [Exit.outcome?, hlt] at ho
      · exact Int32.lt_of_le_of_ne (Int32.not_lt.mp hlt) change.symm
    · rintro rfl
      by_contra hlt
      simp [Exit.outcome?, hlt] at ho
  | _ => rcases hdir with rfl | rfl <;> cases ho

/-! ### Runs that scale both ways -/

/-- Whatever count the bounds allow, the reading `h` leaves it. -/
def WorkloadLifecycleSpec.HoldsOn (spec : WorkloadLifecycleSpec) (h : Int32) : Prop :=
  ∀ c, spec.InBounds c → computeDesiredReplicas c h spec = c

/-- The call emits an event that says `m`. -/
def Call.Emits (c : Call) (m : Mark) : Prop := ∃ e ∈ c.events, e.Shows m

/-- In every run of successful calls from a count in bounds, with no other writer: if one call raises
the count and another lowers it, the controller holds on some percentage strictly between their
readings, and if all readings lie within one point, there are no ScaledUp and ScaledDown events in
one run. -/
def NoFlapping (rt : Runtime) (spec : WorkloadLifecycleSpec) : Prop :=
  ∀ (w : World) (ts : List Tick), w.wl.spec = spec → w.TargetInBounds →
    (∀ t ∈ ts, t.Undisturbed w.wl.deployKey) → (∀ c ∈ calls rt w ts, c.Succeeded rt) →
    (∀ c₁ ∈ calls rt w ts, ∀ c₂ ∈ calls rt w ts, ∀ a b, c₁.Raises → c₁.Reads rt a → c₂.Lowers →
      c₂.Reads rt b → ∃ h, 0 ≤ h ∧ h ≤ 100 ∧ b < h ∧ h < a ∧ spec.HoldsOn h) ∧
    ((∀ c₁ ∈ calls rt w ts, ∀ c₂ ∈ calls rt w ts, ∀ a b, c₁.Reads rt a → c₂.Reads rt b →
      |a.toInt - b.toInt| ≤ 1) →
      ¬ ((∃ c ∈ calls rt w ts, c.Emits (.scaled .scaledUp)) ∧
        ∃ c ∈ calls rt w ts, c.Emits (.scaled .scaledDown)))

variable {spec : WorkloadLifecycleSpec}

/-- The thresholds are ordered, or the bounds leave no room. -/
def WorkloadLifecycleSpec.Separated (spec : WorkloadLifecycleSpec) : Prop :=
  spec.kvCacheScaleDownThresholdPercent ≤ spec.kvCacheThresholdPercent ∨
    spec.maxReplicas ≤ spec.minReplicas

theorem holdsOn_threshold
    (h : spec.kvCacheScaleDownThresholdPercent ≤ spec.kvCacheThresholdPercent) :
    spec.HoldsOn spec.kvCacheThresholdPercent := by
  intro c _
  unfold computeDesiredReplicas
  rw [if_neg (by rw [gt_iff_lt]; exact Int32.lt_irrefl), if_neg (Int32.not_lt.mpr h)]

/-- With ordered thresholds, a reading that moves up and one that moves down lie on both sides of
the scale-up threshold. -/
theorem between_of_le {a b : Int32}
    (h : spec.kvCacheScaleDownThresholdPercent ≤ spec.kvCacheThresholdPercent)
    (ha : spec.asks a = .up) (hb : spec.asks b = .down) :
    b < spec.kvCacheThresholdPercent ∧ spec.kvCacheThresholdPercent < a := by
  rw [Int32.le_iff_toInt_le] at h
  obtain ⟨h1, h2, -⟩ := hold_between h ha hb
  exact ⟨Int32.lt_iff_toInt_lt.mpr h1, Int32.lt_iff_toInt_lt.mpr h2⟩

/-- A raise from within the bounds takes a reading that asks for it and room between the bounds. -/
theorem raise_spec (hmin : 1 ≤ (w.disturb t).wl.spec.minReplicas) {u : Int32}
    (hb : (w.disturb t).TargetInBounds) (h : (call rt w t).Raises)
    (hr : (call rt w t).Reads rt u) :
    (w.disturb t).wl.spec.asks u = .up ∧
      (w.disturb t).wl.spec.minReplicas < (w.disturb t).wl.spec.maxReplicas := by
  obtain ⟨a, b, hc, hlt⟩ := h
  obtain ⟨d, hd, hin⟩ := hb
  obtain ⟨m, d', s, hx, hd', rfl, rfl, h0⟩ := changes_spec hc (Int32.ne_of_lt hlt)
  obtain rfl : d = d' := Option.some_inj.mp (hd.symm.trans hd')
  obtain ⟨⟨-, hle⟩, -⟩ := desired_in_bounds hmin hin h0
  refine ⟨raises_asks_up hmin hc hlt hin hr, ?_⟩
  have hge := hin.1
  rw [Int32.lt_iff_toInt_lt] at hlt ⊢
  exact (hge.trans_lt hlt).trans_le hle

theorem lower_spec {u : Int32} (hb : (w.disturb t).TargetInBounds) (h : (call rt w t).Lowers)
    (hr : (call rt w t).Reads rt u) : (w.disturb t).wl.spec.asks u = .down := by
  obtain ⟨a, b, hc, hlt⟩ := h
  obtain ⟨d, hd, hin⟩ := hb
  obtain ⟨d', -, hd', -, rfl, -⟩ := id hc
  obtain rfl : d = d' := Option.some_inj.mp (hd.symm.trans hd')
  exact lowers_asks_down hc hlt hin hr

/-- Separated specs do not flap. -/
theorem noFlapping_of_separated (hs : spec.Admitted) (hsep : spec.Separated) :
    NoFlapping rt spec := by
  rintro w ts rfl hb hts -
  have hcalls := calls_in_bounds rt hs.min_ge hb hts
  have hup : ∀ c ∈ calls rt w ts, ∀ a, c.Raises → c.Reads rt a → w.wl.spec.asks a = .up ∧
      w.wl.spec.minReplicas < w.wl.spec.maxReplicas := by
    rintro c hc a hraise hread
    obtain ⟨v, t, rfl, ht, hspec, hv⟩ := hcalls c hc
    have hspec' : (v.disturb t).wl.spec = w.wl.spec := by rw [disturb_wl ht, hspec]
    rw [← hspec'] at hs ⊢
    exact raise_spec hs.min_ge (disturb_targetInBounds ht hv) hraise hread
  have hdown : ∀ c ∈ calls rt w ts, ∀ b, c.Lowers → c.Reads rt b → w.wl.spec.asks b = .down := by
    rintro c hc b hlower hread
    obtain ⟨v, t, rfl, ht, hspec, hv⟩ := hcalls c hc
    have hspec' : (v.disturb t).wl.spec = w.wl.spec := by rw [disturb_wl ht, hspec]
    rw [← hspec']
    exact lower_spec (disturb_targetInBounds ht hv) hlower hread
  have hmain : ∀ c₁ ∈ calls rt w ts, ∀ c₂ ∈ calls rt w ts, ∀ a b, c₁.Raises → c₁.Reads rt a →
      c₂.Lowers → c₂.Reads rt b → b < w.wl.spec.kvCacheThresholdPercent ∧
        w.wl.spec.kvCacheThresholdPercent < a ∧
        w.wl.spec.HoldsOn w.wl.spec.kvCacheThresholdPercent := by
    intro c₁ h₁ c₂ h₂ a b hraise ha hlower hb'
    obtain ⟨hasks, hroom⟩ := hup c₁ h₁ a hraise ha
    have hle := hsep.resolve_right (Int32.not_le.mpr hroom)
    obtain ⟨hlt, hgt⟩ := between_of_le hle hasks (hdown c₂ h₂ b hlower hb')
    exact ⟨hlt, hgt, holdsOn_threshold hle⟩
  refine ⟨fun c₁ h₁ c₂ h₂ a b hraise ha hlower hb' =>
    ⟨_, hs.threshold_ge, hs.threshold_le, hmain c₁ h₁ c₂ h₂ a b hraise ha hlower hb'⟩, ?_⟩
  rintro hclose ⟨⟨c₁, h₁, e₁, he₁, hs₁⟩, c₂, h₂, e₂, he₂, hs₂⟩
  obtain ⟨v₁, t₁, rfl, -⟩ := hcalls c₁ h₁
  obtain ⟨v₂, t₂, rfl, -⟩ := hcalls c₂ h₂
  obtain ⟨⟨a, ha⟩, x₁, y₁, hc₁, hlt₁, -⟩ := changes_of_event he₁ hs₁
  obtain ⟨⟨b, hb'⟩, x₂, y₂, hc₂, -, hlt₂⟩ := changes_of_event he₂ hs₂
  obtain ⟨h1, h2, -⟩ := hmain _ h₁ _ h₂ a b ⟨_, _, hc₁, hlt₁ rfl⟩ ha ⟨_, _, hc₂, hlt₂ rfl⟩ hb'
  have hone := hclose _ h₁ _ h₂ a b ha hb'
  rw [Int32.lt_iff_toInt_lt] at h1 h2
  rw [abs_le] at hone
  omega

/-! ### Crossed thresholds -/

/-- With crossed thresholds and room between the bounds every reading moves some count. -/
theorem not_holdsOn (hcross : spec.kvCacheThresholdPercent < spec.kvCacheScaleDownThresholdPercent)
    (hroom : spec.minReplicas < spec.maxReplicas) (h : Int32) :
    ¬ spec.HoldsOn h := by
  intro hold
  rw [Int32.lt_iff_toInt_lt] at hcross hroom
  cases hm : spec.asks h with
  | up =>
    have hsame := hold spec.minReplicas ⟨le_rfl, hroom.le⟩
    have hd := desired_succ hm (c := spec.minReplicas) hroom
    rw [hsame] at hd
    omega
  | down =>
    have hsame := hold spec.maxReplicas ⟨hroom.le, le_rfl⟩
    have hd := desired_pred hm (c := spec.maxReplicas) hroom
    rw [hsame] at hd
    omega
  | hold =>
    obtain ⟨h1, h2⟩ := move_eq_hold.mp hm
    omega

/-- A response whose one line says `n` times the full cache. -/
theorem readAnswer_serving (P : Platform) {body : String} (value : String) {n : ℤ}
    (hl : lines (lit body) = [lit body]) (hf : fields (lit body) = [kvCacheName, lit value])
    (hs : special? value.toList = none) (hq : literalValue? value.toList = some (n : ℚ))
    (hn : |100 * n| < 2 ^ 31) : ∃ m, readAnswer P (Tick.serving body).metrics = .ok m ∧
      m.kvCacheUsagePercent.toInt = 100 * n := by
  have hn' : |n| ≤ 2 ^ 31 := by
    rw [abs_lt] at hn
    rw [abs_le]
    omega
  exact ⟨_, parse_single hl hf (parseFloat_int P hs hq hn'), usagePercent_int P hn⟩

variable (rt) in
/-- With crossed thresholds and room between the bounds, twice a full cache and an empty one scale up
and down again. -/
theorem crossed_run (hs : spec.Admitted) (hcross : spec.kvCacheThresholdPercent <
    spec.kvCacheScaleDownThresholdPercent) (hroom : spec.minReplicas < spec.maxReplicas) :
    ∃ w t₁ t₂, w.wl.spec = spec ∧ w.TargetInBounds ∧
      (∀ t ∈ [t₁, t₂], t.Undisturbed w.wl.deployKey) ∧
      ((call rt w t₁).Succeeded rt ∧ (call rt w t₁).Raises ∧ ∃ a, (call rt w t₁).Reads rt a) ∧
      (call rt (next rt w t₁) t₂).Succeeded rt ∧ (call rt (next rt w t₁) t₂).Lowers ∧
        ∃ b, (call rt (next rt w t₁) t₂).Reads rt b := by
  have hge := Int32.le_iff_toInt_le.mp hs.threshold_ge
  have hle := Int32.le_iff_toInt_le.mp hs.threshold_le
  have hmin := Int32.le_iff_toInt_le.mp hs.min_ge
  have hcross' := Int32.lt_iff_toInt_lt.mp hcross
  have hroom' := Int32.lt_iff_toInt_lt.mp hroom
  rw [Int32.toInt_zero] at hge
  rw [show (100 : Int32).toInt = 100 from rfl] at hle
  rw [Int32.toInt_one] at hmin
  obtain ⟨m₁, hm₁, hu₁⟩ : ∃ m, readAnswer rt.toPlatform
      (Tick.serving "vllm_kv_cache_usage_perc 2").metrics = .ok m ∧
        m.kvCacheUsagePercent.toInt = 100 * 2 :=
    readAnswer_serving _ "2" (by decide +kernel) (by decide +kernel) (by decide)
      (by decide +kernel) (by decide)
  obtain ⟨m₂, hm₂, hu₂⟩ : ∃ m, readAnswer rt.toPlatform
      (Tick.serving "vllm_kv_cache_usage_perc 0").metrics = .ok m ∧
        m.kvCacheUsagePercent.toInt = 100 * 0 :=
    readAnswer_serving _ "0" (by decide +kernel) (by decide +kernel) (by decide)
      (by decide +kernel) (by decide)
  obtain ⟨w, hspec, d₀, hd₀, hc₀⟩ : ∃ w : World, w.wl.spec = spec ∧
      ∃ d, w.target = some d ∧ d.count = spec.minReplicas :=
    ⟨.fresh spec (some spec.minReplicas), rfl, _, DeploymentStore.set_get_self .., rfl⟩
  have hin : w.wl.spec.InBounds d₀.count := by
    rw [hspec, hc₀]
    exact ⟨le_rfl, hroom'.le⟩
  -- up from MinReplicas
  have hu := undisturbed_serving "vllm_kv_cache_usage_perc 2" w.wl.deployKey
  obtain ⟨hsucc₁, hraise, d₁, hd₁, hc₁⟩ := smooth_raise hu (smooth_serving _) hm₁ hd₀
    (move_eq_up.mpr (by rw [hspec]; omega)) (by rw [hc₀]; omega) (by rw [hspec, hc₀]; omega)
  -- and down to it again
  have hspec₁ := (next_spec rt w hu).1
  have hd := undisturbed_serving "vllm_kv_cache_usage_perc 0" w.wl.deployKey
  rw [← next_deployKey rt w hu] at hd
  obtain ⟨hsucc₂, hlower, -⟩ := smooth_lower hd (smooth_serving _) hm₂ hd₁
    (move_eq_down.mpr (by rw [hspec₁, hspec]; omega)) (by rw [hc₁, hc₀]; omega)
    (by rw [hspec₁, hspec, hc₁, hc₀]; omega)
  refine ⟨w, _, _, hspec, ⟨d₀, hd₀, hin⟩, fun t ht => ?_, ⟨hsucc₁, hraise, _, m₁, hm₁, rfl⟩,
    hsucc₂, hlower, _, m₂, hm₂, rfl⟩
  rcases List.mem_pair.mp ht with rfl | rfl
  · exact hu
  · exact undisturbed_serving _ _

/-- **Crossed thresholds flap.** -/
theorem flapping_of_crossed (hs : spec.Admitted) (hsep : ¬ spec.Separated) :
    ¬ NoFlapping rt spec := by
  rw [WorkloadLifecycleSpec.Separated, not_or, Int32.not_le, Int32.not_le] at hsep
  obtain ⟨hcross, hroom⟩ := hsep
  intro hno
  obtain ⟨w, t₁, t₂, hspec, hin, hts, ⟨hsucc₁, hraise, a, ha⟩, hsucc₂, hlower, b, hb⟩ :=
    crossed_run rt hs hcross hroom
  have hsucc : ∀ c ∈ calls rt w [t₁, t₂], c.Succeeded rt := by
    intro c hc
    rcases List.mem_pair.mp hc with rfl | rfl
    · exact hsucc₁
    · exact hsucc₂
  obtain ⟨h, -, -, -, -, hold⟩ := (hno w [t₁, t₂] hspec hin hts hsucc).1
    _ (List.mem_pair.mpr (.inl rfl)) _ (List.mem_pair.mpr (.inr rfl)) a b hraise ha hlower hb
  exact not_holdsOn hcross hroom h hold

/-- **When a spec does not flap**: exactly when its thresholds are ordered or its bounds leave no
room. -/
theorem noFlapping_iff (hs : spec.Admitted) : NoFlapping rt spec ↔ spec.Separated :=
  ⟨fun h => not_not.mp fun hsep => flapping_of_crossed hs hsep h, noFlapping_of_separated hs⟩

theorem noFlapping_iff_sample :
    NoFlapping (.exact 0) .sample ↔ WorkloadLifecycleSpec.sample.Separated :=
  noFlapping_iff sample_admitted

/-- The sample with its thresholds swapped. -/
def WorkloadLifecycleSpec.crossed : WorkloadLifecycleSpec :=
  { WorkloadLifecycleSpec.sample with
    kvCacheThresholdPercent := 25, kvCacheScaleDownThresholdPercent := 80 }

/-- The schema admits it and it flaps. -/
theorem crossed_flaps :
    WorkloadLifecycleSpec.crossed.Admitted ∧ ¬ NoFlapping (.exact 0) .crossed := by
  have hs : WorkloadLifecycleSpec.crossed.Admitted :=
    ⟨by decide, by decide, by decide, by decide, by decide⟩
  refine ⟨hs, flapping_of_crossed hs ?_⟩
  unfold WorkloadLifecycleSpec.Separated
  decide

end InfraDemo.Operator
