import Mathlib.Data.List.Forall2
import InfraDemo.Operator.Bounds
import InfraDemo.Operator.Quotes

/-!
# Pressure — how the count follows the readings

Inside the bounds one call is monotone in the count and in the reading, so of two runs the one with
the higher readings keeps the higher count (`replicas_monotone`).  Under readings that all ask for
the same move the count has a closed form, and each of its changes is one Deployment write and one
event (`sustained_pressure`).
-/

namespace InfraDemo.Operator

open InfraDemo.Go InfraDemo.Hysteresis

variable {rt : Runtime} {w w' : World} {t t' : Tick}

/-! ### Two runs -/

/-- An observation of the tick fails, or its Update does. -/
def Tick.Failing (rt : Runtime) (t : Tick) : Prop :=
  t.getErr ≠ none ∨ (∃ err, readAnswer rt.toPlatform t.metrics = .error err) ∨
    t.deployErr ≠ none ∨ t.updateErr ≠ none

/-- A call on a failing tick leaves the target. -/
theorem failing_target (h : t.Failing rt) {d : Deployment} (hd : (w.disturb t).target = some d) :
    (call rt w t).after.deployments.get (w.disturb t).wl.deployKey = some d := by
  rcases call_target rt hd with hsame | ⟨m, s, hx, -, -⟩
  · exact hsame
  · have hexits := exits_callExit rt w t
    rw [hx] at hexits
    have hs := smooth_of_scaled hexits
    cases hexits with
    | scaled get fetch read change update =>
      rcases h with h | ⟨err, h⟩ | h | h
      · exact absurd hs.get h
      · cases fetch.symm.trans h
      · exact absurd hs.deploy h
      · exact absurd hs.update h

/-- The ticks of two runs at one time: both fail, or neither does and the second reads no lower
usage. -/
inductive Comparable (rt : Runtime) (t t' : Tick) : Prop where
  | failing (first : t.Failing rt) (second : t'.Failing rt)
  | reading {m m' : Metrics} (first : t.Smooth) (second : t'.Smooth)
      (fetch : readAnswer rt.toPlatform t.metrics = .ok m)
      (fetch' : readAnswer rt.toPlatform t'.metrics = .ok m')
      (le : m.kvCacheUsagePercent ≤ m'.kvCacheUsagePercent)

/-- The bounds are positive counts below the largest int32. -/
structure WorkloadLifecycleSpec.Bounded (spec : WorkloadLifecycleSpec) : Prop where
  min_ge : 1 ≤ spec.minReplicas
  max_lt : spec.maxReplicas.toInt < 2 ^ 31 - 1

section Desired

variable {spec : WorkloadLifecycleSpec} {c c' u u' : Int32}

/-- Inside the bounds the desired count is the clamped step, and in the bounds. -/
theorem desired_of_bounded (hs : spec.Bounded) (hb : spec.InBounds c) :
    (computeDesiredReplicas c u spec).toInt =
      clampStep spec.minReplicas.toInt spec.maxReplicas.toInt c.toInt (spec.asks u) ∧
    0 ≤ computeDesiredReplicas c u spec := by
  have hmin := Int32.le_iff_toInt_le.mp hs.min_ge
  have hmax := hs.max_lt
  rw [Int32.toInt_one] at hmin
  obtain ⟨h1, h2⟩ := hb
  have hd : (computeDesiredReplicas c u spec).toInt = _ := computeDesiredReplicas_toInt
    (fun _ => show c.toInt < 2 ^ 31 - 1 by omega) fun _ => by omega
  refine ⟨hd, ?_⟩
  rw [Int32.le_iff_toInt_le, hd, Int32.toInt_zero]
  exact le_clampStep (by omega) (by omega) (by omega) _

/-- **One call is monotone** in the count and in the usage. -/
theorem desired_mono (hs : spec.Bounded) (hb : spec.InBounds c) (hb' : spec.InBounds c')
    (hc : c ≤ c') (hu : u ≤ u') :
    computeDesiredReplicas c u spec ≤ computeDesiredReplicas c' u' spec := by
  rw [Int32.le_iff_toInt_le] at hc hu ⊢
  rw [(desired_of_bounded hs hb).1, (desired_of_bounded hs hb').1]
  exact clampStep_mono hb hb' hc hu

end Desired

/-- The two worlds at one time of the two runs. -/
structure Below (spec : WorkloadLifecycleSpec) (key key' : ObjectKey) (v v' : World) : Prop where
  spec_eq : v.wl.spec = spec
  spec_eq' : v'.wl.spec = spec
  key_eq : v.wl.deployKey = key
  key_eq' : v'.wl.deployKey = key'
  counts : ∃ d d', v.target = some d ∧ v'.target = some d' ∧ spec.InBounds d.count ∧
    spec.InBounds d'.count ∧ d.count ≤ d'.count

/-- On a failing tick the next world has the same target. -/
theorem failing_next (ht : t.Undisturbed w.wl.deployKey) (h : t.Failing rt) {d : Deployment}
    (hd : w.target = some d) : (next rt w t).target = some d := by
  have hd' : (w.disturb t).target = some d := by rwa [disturb_target ht]
  have hkey : (next rt w t).wl.deployKey = (w.disturb t).wl.deployKey := by
    rw [next_deployKey rt w ht, disturb_wl ht]
  rw [World.target, hkey]
  exact failing_target h hd'

/-- **Step**: comparable ticks keep the first count at most the second. -/
theorem below_step {spec : WorkloadLifecycleSpec} {key key' : ObjectKey} (hs : spec.Bounded)
    (ht : t.Undisturbed key) (ht' : t'.Undisturbed key') (hc : Comparable rt t t')
    (h : Below spec key key' w w') : Below spec key key' (next rt w t) (next rt w' t') := by
  obtain ⟨rfl, hspec', rfl, rfl, d, d', hd, hd', hb, hb', hle⟩ := h
  refine ⟨(next_spec rt w ht).1, (next_spec rt w' ht').1.trans hspec', next_deployKey rt w ht,
    next_deployKey rt w' ht', ?_⟩
  cases hc with
  | failing first second =>
    exact ⟨d, d', failing_next ht first hd, failing_next ht' second hd', hb, hb', hle⟩
  | @reading m m' first second fetch fetch' hu =>
    have h0 : 0 ≤ desiredOf w m d := (desired_of_bounded hs hb).2
    have h0' : 0 ≤ desiredOf w' m' d' := by
      rw [desiredOf, hspec']
      exact (desired_of_bounded hs hb').2
    obtain ⟨-, -, e, he, hec⟩ := smooth_step ht first fetch hd h0
    obtain ⟨-, -, e', he', hec'⟩ := smooth_step ht' second fetch' hd' h0'
    obtain ⟨f, hf, hin, -⟩ := call_in_bounds rt ht hs.min_ge hd hb
    obtain ⟨f', hf', hin', -⟩ := call_in_bounds rt ht' (by rw [hspec']; exact hs.min_ge) hd'
      (by rwa [hspec'])
    obtain rfl : f = e := Option.some_inj.mp (hf.symm.trans he)
    obtain rfl : f' = e' := Option.some_inj.mp (hf'.symm.trans he')
    rw [hspec'] at hin'
    refine ⟨f, f', he, he', hin, hin', ?_⟩
    rw [hec, hec', desiredOf, desiredOf, hspec']
    exact desired_mono hs hb hb' hle hu

/-- **Load monotonicity of whole runs.**  Of two runs of one spec from counts in its bounds, with
nobody else writing and ticks that are comparable one by one, the one that starts lower and reads
lower has the lower count at every time. -/
theorem replicas_monotone {ts ts' : List Tick} {d d' : Deployment}
    (hspec : w'.wl.spec = w.wl.spec) (hs : w.wl.spec.Bounded)
    (hts : ∀ t ∈ ts, t.Undisturbed w.wl.deployKey)
    (hts' : ∀ t ∈ ts', t.Undisturbed w'.wl.deployKey) (hc : List.Forall₂ (Comparable rt) ts ts')
    (hd : w.target = some d) (hd' : w'.target = some d') (hb : w.wl.spec.InBounds d.count)
    (hb' : w.wl.spec.InBounds d'.count) (hle : d.count ≤ d'.count) (k : ℕ) :
    ∃ e e', (Run.final (next rt) w (ts.take k)).target = some e ∧
      (Run.final (next rt) w' (ts'.take k)).target = some e' ∧ e.count ≤ e'.count := by
  have hall : List.Forall₂ (fun t t' => t.Undisturbed w.wl.deployKey ∧
      t'.Undisturbed w'.wl.deployKey ∧ Comparable rt t t') ts ts' := by
    obtain ⟨hlen, hzip⟩ := List.forall₂_iff_zip.mp hc
    exact List.forall₂_iff_zip.mpr ⟨hlen, fun hmem =>
      ⟨hts _ (List.of_mem_zip hmem).1, hts' _ (List.of_mem_zip hmem).2, hzip hmem⟩⟩
  have hstart : Below w.wl.spec w.wl.deployKey w'.wl.deployKey w w' :=
    ⟨rfl, hspec, rfl, rfl, d, d', hd, hd', hb, hb', hle⟩
  have hrun := Run.final_rel (fun _ _ _ _ ⟨ht, ht', hc⟩ hR => below_step hs ht ht' hc hR)
    (List.forall₂_take k hall) hstart
  obtain ⟨e, e', he, he', -, -, hle'⟩ := hrun.counts
  exact ⟨e, e', he, he', hle'⟩

theorem sample_bounded : WorkloadLifecycleSpec.sample.Bounded := ⟨by decide, by decide⟩

theorem replicas_monotone_sample : ∃ e e',
    (Run.final (next (.exact 0)) (.fresh .sample (some 1))
      [.serving "vllm_kv_cache_usage_perc 0.5"]).target = some e ∧
    (Run.final (next (.exact 0)) (.fresh .sample (some 2))
      [.serving "vllm_kv_cache_usage_perc 0.9"]).target = some e' ∧ e.count ≤ e'.count :=
  have hc : Comparable (.exact 0) (.serving "vllm_kv_cache_usage_perc 0.5")
      (.serving "vllm_kv_cache_usage_perc 0.9") :=
    .reading (smooth_serving _) (smooth_serving _) readAnswer_half readAnswer_ninety (by decide)
  @replicas_monotone (.exact 0) (.fresh .sample (some 1)) (.fresh .sample (some 2)) _ _ _ _ rfl
    sample_bounded (fun _ ht => List.mem_singleton.mp ht ▸ undisturbed_serving _ _)
    (fun _ ht => List.mem_singleton.mp ht ▸ undisturbed_serving _ _) (.cons hc .nil) rfl rfl
    (by decide) (by decide) (by decide) 1

/-! ### Steady readings -/

section ClosedForm

variable {spec : WorkloadLifecycleSpec} {c : ℤ} {m : Move} {n : ℕ}

/-- The count after `n` readings that all ask for `m`, from the count `c`. -/
def closedForm (spec : WorkloadLifecycleSpec) (c : ℤ) (m : Move) : ℕ → ℤ
  | 0 => c
  | n + 1 =>
    match m with
    | .up => min spec.maxReplicas.toInt (c + (n + 1 : ℕ))
    | .down => max spec.minReplicas.toInt (c - (n + 1 : ℕ))
    | .hold => c

/-- One more reading is one more clamped step. -/
theorem closedForm_succ : closedForm spec c m (n + 1) =
    clampStep spec.minReplicas.toInt spec.maxReplicas.toInt (closedForm spec c m n) m := by
  cases m <;> cases n <;>
    simp only [closedForm, clampStep, Order.succ_eq_add_one, Order.pred_eq_sub_one] <;> omega

theorem closedForm_nonneg (hs : spec.Admitted) (hc : 0 ≤ c) : 0 ≤ closedForm spec c m n := by
  obtain ⟨hmin, hmax⟩ := hs.bounds_nonneg
  induction n with
  | zero => exact hc
  | succ n ih =>
    rw [closedForm_succ]
    exact le_clampStep hmin hmax ih m

theorem closedForm_up_lt (hmax : spec.maxReplicas.toInt < 2 ^ 31 - 1) (hc : c < 2 ^ 31 - 1) :
    closedForm spec c .up n < 2 ^ 31 - 1 := by
  cases n with
  | zero => exact hc
  | succ n => exact (min_le_left _ _).trans_lt hmax

/-- Once a step changes nothing, none does. -/
theorem closedForm_settled {k : ℕ} (h : closedForm spec c m (k + 1) = closedForm spec c m k)
    {j : ℕ} (hj : k ≤ j) : closedForm spec c m (j + 1) = closedForm spec c m j := by
  induction j, hj using Nat.le_induction with
  | base => exact h
  | succ j _ ih =>
    rw [closedForm_succ, ih, ← closedForm_succ]
    exact ih

end ClosedForm

/-- One where the sequence changes after time `k`, else zero. -/
def changeAt (f : ℕ → ℤ) (k : ℕ) : ℕ := if f (k + 1) = f k then 0 else 1

/-- At how many of the first `n` times the sequence changes. -/
def changeCount (f : ℕ → ℤ) (n : ℕ) : ℕ := (List.range n).countP fun k => f (k + 1) ≠ f k

theorem sum_changeAt (f : ℕ → ℤ) (n : ℕ) :
    ((List.range n).map (changeAt f)).sum = changeCount f n := by
  induction n with
  | zero => rfl
  | succ n ih =>
    unfold changeCount at ih ⊢
    rw [List.range_succ, List.map_append, List.sum_append, List.countP_append, ih]
    congr 1
    by_cases h : f (n + 1) = f n <;> simp [changeAt, h]

instance : DecidablePred Event.ReportsScaling := fun _ => inferInstanceAs (Decidable (_ ∨ _))

/-- How many ScaledUp and ScaledDown events the call emits. -/
def Call.scalings (c : Call) : ℕ := c.events.countP fun e => e.ReportsScaling

/-- An accepted change is one scaling event, any other path is none. -/
theorem countP_reports (x : Exit) : ((x.events w).countP fun e => e.ReportsScaling) =
    match x with
    | .scaled _ _ _ => 1
    | _ => 0 := by
  have hrec : ∀ r, ((recoveredFrom w.wl r).countP fun e => e.ReportsScaling) = 0 := by
    intro r
    rw [List.countP_eq_zero]
    intro e he
    have hr := reason_of_mem_recoveredFrom he
    simp only [Event.ReportsScaling, hr]
    decide
  cases x with
  | scaled m d s =>
    show (recoveredFrom w.wl _ ++ recoveredFrom w.wl _ ++ [scaledEventOf w m d]).countP _ = 1
    rw [List.countP_append, List.countP_append, hrec, hrec]
    simp [scaledEventOf_reports]
  | _ =>
    simp only [List.countP_eq_zero]
    intro e he hr
    obtain ⟨m, d, s, hx, -⟩ := scaled_of_reports he (of_decide_eq_true hr)
    cases hx

/-- A quiet tick whose reading asks for `m`. -/
structure Tick.Steady (rt : Runtime) (spec : WorkloadLifecycleSpec) (key : ObjectKey) (m : Move)
    (t : Tick) : Prop where
  undisturbed : t.Undisturbed key
  smooth : t.Smooth
  asks : ∃ metrics, readAnswer rt.toPlatform t.metrics = .ok metrics ∧
    spec.asks metrics.kvCacheUsagePercent = m

variable (rt) in
/-- One quiet call writes and announces a change of the count, and nothing else. -/
theorem quiet_call (ht : t.Undisturbed w.wl.deployKey) (hs : t.Smooth) {metrics : Metrics}
    (hm : readAnswer rt.toPlatform t.metrics = .ok metrics) {d : Deployment}
    (hd : w.target = some d) (h0 : 0 ≤ desiredOf w metrics d) :
    (call rt w t).deployWrites.length = (if desiredOf w metrics d = d.count then 0 else 1) ∧
      (call rt w t).scalings = if desiredOf w metrics d = d.count then 0 else 1 := by
  have hd' : (w.disturb t).target = some d := by rwa [disturb_target ht]
  rw [← desiredOf_disturb ht] at h0 ⊢
  rw [Call.scalings, call_deployWrites, call_events, countP_reports]
  rcases smooth_exits hs hm hd' h0 with ⟨hsame, hx⟩ | ⟨s, hne, hx⟩
  · rw [callExit_eq rt w t hx, if_pos hsame]
    exact ⟨rfl, rfl⟩
  · rw [callExit_eq rt w t hx, if_neg hne]
    exact ⟨rfl, rfl⟩

variable (rt) in
/-- The run so far has followed the closed form `f`: the count, and for each call one write and one
scaling event where `f` changes. -/
structure Follows (spec : WorkloadLifecycleSpec) (key : ObjectKey) (f : ℕ → ℤ) (cs : List Call)
    (v : World) : Prop where
  spec_eq : v.wl.spec = spec
  key_eq : v.wl.deployKey = key
  count : ∃ d, v.target = some d ∧ d.count.toInt = f cs.length
  writes : cs.map (fun c => c.deployWrites.length) = (List.range cs.length).map (changeAt f)
  scalings : cs.map Call.scalings = (List.range cs.length).map (changeAt f)

/-- **Step**: a steady tick takes the run one step along the closed form. -/
theorem follows_step {spec : WorkloadLifecycleSpec} {key : ObjectKey} {c : ℤ} {m : Move}
    (hs : spec.Admitted) (hmax : spec.maxReplicas.toInt < 2 ^ 31 - 1) (h0 : 0 ≤ c)
    (hlt : c < 2 ^ 31 - 1) {cs : List Call} (ht : t.Steady rt spec key m)
    (h : Follows spec key (closedForm spec c m) cs w) :
    Follows spec key (closedForm spec c m) (cs ++ [call rt w t]) (next rt w t) := by
  obtain ⟨rfl, rfl, ⟨d, hd, hcount⟩, hwrites, hscalings⟩ := h
  obtain ⟨hu, hsmooth, metrics, hm, rfl⟩ := ht
  have hnonneg : 0 ≤ d.count.toInt := hcount ▸ closedForm_nonneg hs h0
  have hdes : (desiredOf w metrics d).toInt = closedForm w.wl.spec c
      (w.wl.spec.asks metrics.kvCacheUsagePercent) (cs.length + 1) := by
    rw [closedForm_succ, ← hcount]
    refine computeDesiredReplicas_toInt (fun hup => ?_) fun _ => by omega
    rw [hcount, hup]
    exact closedForm_up_lt hmax hlt
  have hdes0 : 0 ≤ desiredOf w metrics d := by
    rw [Int32.le_iff_toInt_le, hdes]
    exact closedForm_nonneg hs h0
  obtain ⟨-, -, d', hd', hcount'⟩ := smooth_step hu hsmooth hm hd hdes0
  obtain ⟨hw, hsc⟩ := quiet_call rt hu hsmooth hm hd hdes0
  have hchange : (if desiredOf w metrics d = d.count then 0 else 1) =
      changeAt (closedForm w.wl.spec c (w.wl.spec.asks metrics.kvCacheUsagePercent)) cs.length := by
    simp only [changeAt, ← hdes, ← hcount, Int32.toInt_inj]
  refine ⟨(next_spec rt w hu).1, next_deployKey rt w hu, ⟨d', hd', ?_⟩, ?_, ?_⟩
  · rw [hcount', hdes, List.length_append, List.length_singleton]
  · rw [List.map_append, hwrites, List.length_append, List.length_singleton, List.range_succ,
      List.map_append, List.map_singleton, List.map_singleton, hw, hchange]
  · rw [List.map_append, hscalings, List.length_append, List.length_singleton, List.range_succ,
      List.map_append, List.map_singleton, List.map_singleton, hsc, hchange]

variable (rt) in
/-- The runs of steady ticks follow the closed form. -/
theorem follows_calls {ts : List Tick} {d : Deployment} {m : Move} (hs : w.wl.spec.Admitted)
    (hmax : w.wl.spec.maxReplicas.toInt < 2 ^ 31 - 1) (hd : w.target = some d) (h0 : 0 ≤ d.count)
    (hlt : d.count.toInt < 2 ^ 31 - 1)
    (hts : ∀ t ∈ ts, t.Steady rt w.wl.spec w.wl.deployKey m) :
    Follows w.wl.spec w.wl.deployKey (closedForm w.wl.spec d.count.toInt m) (calls rt w ts)
      (Run.final (next rt) w ts) := by
  rw [Int32.le_iff_toInt_le, Int32.toInt_zero] at h0
  have hstart : Follows w.wl.spec w.wl.deployKey (closedForm w.wl.spec d.count.toInt m) [] w :=
    ⟨rfl, rfl, ⟨d, hd, rfl⟩, rfl, rfl⟩
  exact Run.final_rec (J := Follows w.wl.spec w.wl.deployKey (closedForm w.wl.spec d.count.toInt m))
    (A := fun t => t.Steady rt w.wl.spec w.wl.deployKey m) hstart
    (fun _ _ _ ht h => follows_step hs hmax h0 hlt ht h) ts hts

/-- Where no step changes the closed form, no call writes. -/
theorem Follows.settled {spec : WorkloadLifecycleSpec} {key : ObjectKey} {f : ℕ → ℤ}
    {cs : List Call} (h : Follows spec key f cs w) {k : ℕ} (hk : ∀ j, k ≤ j → f (j + 1) = f j) :
    ∀ c ∈ cs.drop k, c.deployWrites = [] ∧ c.scalings = 0 := by
  intro c hc
  obtain ⟨i, hi, rfl⟩ := List.mem_drop_iff_getElem.mp hc
  have hzero : changeAt f (k + i) = 0 := if_pos (hk _ (Nat.le_add_right k i))
  have hwrites := congrArg (·[k + i]?) h.writes
  have hscalings := congrArg (·[k + i]?) h.scalings
  have hlen : k + i < cs.length := by omega
  simp only [List.getElem?_map, List.getElem?_eq_getElem hlen, List.getElem?_range hlen,
    Option.map_some, Option.some_inj, hzero] at hwrites hscalings
  exact ⟨List.length_eq_zero_iff.mp hwrites, hscalings⟩

/-- **Closed form under sustained pressure.**  Under steady ticks that all ask for `m` the count is
the closed form, and the Deployment writes and the scaling events are as many as its changes; from
the first step on that changes nothing there are none. -/
theorem sustained_pressure {ts : List Tick} {d : Deployment} {m : Move} (hs : w.wl.spec.Admitted)
    (hmax : w.wl.spec.maxReplicas.toInt < 2 ^ 31 - 1) (hd : w.target = some d) (h0 : 0 ≤ d.count)
    (hlt : d.count.toInt < 2 ^ 31 - 1)
    (hts : ∀ t ∈ ts, t.Steady rt w.wl.spec w.wl.deployKey m) :
    (∃ d', (Run.final (next rt) w ts).target = some d' ∧
      d'.count.toInt = closedForm w.wl.spec d.count.toInt m ts.length) ∧
    ((calls rt w ts).map fun c => c.deployWrites.length).sum =
      changeCount (closedForm w.wl.spec d.count.toInt m) ts.length ∧
    ((calls rt w ts).map Call.scalings).sum =
      changeCount (closedForm w.wl.spec d.count.toInt m) ts.length ∧
    ∀ k, closedForm w.wl.spec d.count.toInt m (k + 1) = closedForm w.wl.spec d.count.toInt m k →
      ∀ c ∈ (calls rt w ts).drop k, c.deployWrites = [] ∧ c.scalings = 0 := by
  have hrun := follows_calls rt hs hmax hd h0 hlt hts
  have hlen : (calls rt w ts).length = ts.length := Run.length_records ..
  refine ⟨hlen ▸ hrun.count, ?_, ?_, fun k hk => hrun.settled fun j => closedForm_settled hk⟩
  · rw [hrun.writes, sum_changeAt, hlen]
  · rw [hrun.scalings, sum_changeAt, hlen]

/-- Three readings of 90% from one replica: two, three, three. -/
theorem sustained_pressure_sample :
    (∃ d', (Run.final (next (.exact 0)) (.fresh .sample (some 1))
      (List.replicate 3 (.serving "vllm_kv_cache_usage_perc 0.9"))).target = some d' ∧
      d'.count.toInt = closedForm .sample 1 .up 3) ∧
    ((calls (.exact 0) (.fresh .sample (some 1))
      (List.replicate 3 (.serving "vllm_kv_cache_usage_perc 0.9"))).map
        fun c => c.deployWrites.length).sum = changeCount (closedForm .sample 1 .up) 3 ∧
    ((calls (.exact 0) (.fresh .sample (some 1))
      (List.replicate 3 (.serving "vllm_kv_cache_usage_perc 0.9"))).map Call.scalings).sum =
        changeCount (closedForm .sample 1 .up) 3 ∧
    ∀ k, closedForm .sample 1 .up (k + 1) = closedForm .sample 1 .up k →
      ∀ c ∈ (calls (.exact 0) (.fresh .sample (some 1))
        (List.replicate 3 (.serving "vllm_kv_cache_usage_perc 0.9"))).drop k,
        c.deployWrites = [] ∧ c.scalings = 0 :=
  sustained_pressure (w := .fresh .sample (some 1)) sample_admitted sample_bounded.max_lt rfl
    (by decide) (by decide) fun t ht => by
      rw [List.eq_of_mem_replicate ht]
      exact ⟨undisturbed_serving _ _, smooth_serving _, _, readAnswer_ninety, by decide⟩

end InfraDemo.Operator
