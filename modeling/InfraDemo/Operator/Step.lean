import Mathlib.Algebra.Order.Group.Int
import InfraDemo.Operator.Writes

/-!
# Step — one step of the replica count

Inside `[MinReplicas, MaxReplicas]` the desired count stays inside and is at most one step away, also
at the largest int32, where the wrapped count is negative and the API server refuses it.  `Changes`
is the step as the cluster sees it: only an accepted Update changes the stored count of the target,
to the desired count, in the direction the reading asks for.
-/

namespace InfraDemo.Operator

open InfraDemo.Go InfraDemo.Hysteresis

/-! ### The desired count -/

section Step

variable {spec : WorkloadLifecycleSpec} {c u : Int32}

/-- A desired count the API server can store was computed without wrapping upwards. -/
theorem asks_up_lt_of_nonneg (h0 : 0 ≤ (computeDesiredReplicas c u spec).toInt) :
    spec.asks u = .up → c.toInt < 2 ^ 31 - 1 := by
  intro hm
  have hle := c.toInt_lt
  by_contra hc
  have hw := computeDesiredReplicas_wrap (c := c) hm (by omega)
  omega

/-- **Step in bounds**: from a count in bounds, a desired count that can be stored is in bounds and
at most one away. -/
theorem desired_in_bounds (hmin : 1 ≤ spec.minReplicas) (hb : spec.InBounds c)
    (h0 : 0 ≤ (computeDesiredReplicas c u spec).toInt) :
    spec.InBounds (computeDesiredReplicas c u spec) ∧
      |(computeDesiredReplicas c u spec).toInt - c.toInt| ≤ 1 := by
  have hd := computeDesiredReplicas_toInt (asks_up_lt_of_nonneg h0) fun _ => hb.gt_min hmin
  have hmem := clampStep_mem hb (spec.asks u)
  rw [← hd] at hmem
  refine ⟨hmem, ?_⟩
  rw [abs_le]
  cases hm : spec.asks u with
  | up =>
    have hstep := le_clampStep_up hb
    rw [hm] at hd
    rw [← hd, Order.succ_eq_add_one] at hstep
    omega
  | down =>
    have hstep := clampStep_down_le hb
    rw [hm] at hd
    rw [← hd, Order.pred_eq_sub_one] at hstep
    omega
  | hold =>
    rw [hm] at hd
    have hsame : (computeDesiredReplicas c u spec).toInt = c.toInt := hd
    omega

/-- A count in bounds that a storable desired count exceeds was asked up. -/
theorem asks_up_of_lt (hmin : 1 ≤ spec.minReplicas) (hb : spec.InBounds c)
    (h0 : 0 ≤ (computeDesiredReplicas c u spec).toInt) (h : c < computeDesiredReplicas c u spec) :
    spec.asks u = .up := by
  have hd := computeDesiredReplicas_toInt (asks_up_lt_of_nonneg h0) fun _ => hb.gt_min hmin
  rw [Int32.lt_iff_toInt_lt, hd] at h
  exact eq_up_of_lt hb h

/-- A count in bounds above a storable desired count was asked down. -/
theorem asks_down_of_lt (hb : spec.InBounds c) (h0 : 0 ≤ (computeDesiredReplicas c u spec).toInt)
    (h : computeDesiredReplicas c u spec < c) : spec.asks u = .down := by
  have hge := c.le_toInt
  have hd := computeDesiredReplicas_toInt (asks_up_lt_of_nonneg h0) fun _ => by
    rw [Int32.lt_iff_toInt_lt] at h
    omega
  rw [Int32.lt_iff_toInt_lt, hd] at h
  exact eq_down_of_lt hb h

/-- One below `MaxReplicas` or lower, a reading that asks up adds one. -/
theorem desired_succ (hm : spec.asks u = .up) (hlt : c.toInt < spec.maxReplicas.toInt) :
    (computeDesiredReplicas c u spec).toInt = c.toInt + 1 := by
  have hmax := spec.maxReplicas.toInt_lt
  have hdown : spec.asks u ≠ .down := by simp [hm]
  rw [computeDesiredReplicas_toInt (fun _ => by omega) (absurd · hdown), hm]
  simp only [clampStep, Order.succ_eq_add_one]
  omega

/-- One above `MinReplicas` or higher, a reading that asks down takes one away. -/
theorem desired_pred (hm : spec.asks u = .down) (hlt : spec.minReplicas.toInt < c.toInt) :
    (computeDesiredReplicas c u spec).toInt = c.toInt - 1 := by
  have hmin := spec.minReplicas.le_toInt
  have hup : spec.asks u ≠ .up := by simp [hm]
  rw [computeDesiredReplicas_toInt (absurd · hup) fun _ => by omega, hm]
  simp only [clampStep, Order.pred_eq_sub_one]
  omega

/-- One step on `u` can carry `c` into the bounds: moving up from at most one below, moving down
from at most one above, holding from inside. -/
def WorkloadLifecycleSpec.Reaches (spec : WorkloadLifecycleSpec) (u c : Int32) : Prop :=
  match spec.asks u with
  | .up => spec.minReplicas.toInt ≤ c.toInt + 1
  | .down => c.toInt - 1 ≤ spec.maxReplicas.toInt
  | .hold => spec.InBounds c

/-- From any count, a desired count that can be stored is in bounds exactly when one step reaches
them. -/
theorem desired_in_bounds_iff (hle : spec.minReplicas ≤ spec.maxReplicas) (hc : 0 ≤ c)
    (h0 : 0 ≤ (computeDesiredReplicas c u spec).toInt) :
    spec.InBounds (computeDesiredReplicas c u spec) ↔ spec.Reaches u c := by
  rw [Int32.le_iff_toInt_le] at hle hc
  rw [Int32.toInt_zero] at hc
  have hd := computeDesiredReplicas_toInt (asks_up_lt_of_nonneg h0) fun _ => by omega
  unfold WorkloadLifecycleSpec.InBounds WorkloadLifecycleSpec.Reaches
  rw [hd, ← Set.mem_Icc, clampStep_mem_iff hle]
  cases spec.asks u <;> rfl

end Step

/-! ### Changes of the stored count -/

variable {rt : Runtime} {w : World} {t : Tick}

variable (rt) in
/-- The target after a call: untouched, or set to a desired count that can be stored. -/
theorem call_target {d : Deployment} (hd : (w.disturb t).target = some d) :
    (call rt w t).after.deployments.get (w.disturb t).wl.deployKey = some d ∨
      ∃ metrics s, callExit rt w t = .scaled metrics d s ∧
        0 ≤ (desiredOf (w.disturb t) metrics d).toInt ∧
        (call rt w t).after.deployments.get (w.disturb t).wl.deployKey =
          some { submitted (w.disturb t) metrics d with
            resourceVersion := d.resourceVersion + 1 } := by
  have hx := exits_callExit rt w t
  rw [call_after]
  rcases after_deployments (w := w.disturb t) (callExit rt w t) with h | ⟨m, d₀, s, hs, h⟩
  · exact .inl (by rw [h]; exact hd)
  · rw [hs] at hx
    obtain ⟨hd₀, h0, -⟩ := hx.scaled_spec
    obtain rfl : d₀ = d := Option.some_inj.mp (hd₀.symm.trans hd)
    refine .inr ⟨m, s, hs, h0, ?_⟩
    rw [h, hx.scaled_get, if_pos rfl]

/-- The call got the usage `u` from its metrics endpoint. -/
def Call.Reads (rt : Runtime) (c : Call) (u : Int32) : Prop :=
  ∃ m, readAnswer rt.toPlatform c.tick.metrics = .ok m ∧ m.kvCacheUsagePercent = u

/-- The call takes the stored count of its target from `a` to `b`. -/
def Call.Changes (c : Call) (a b : Int32) : Prop :=
  ∃ d d', c.start.target = some d ∧ c.after.deployments.get c.start.wl.deployKey = some d' ∧
    d.count = a ∧ d'.count = b

def Call.Raises (c : Call) : Prop := ∃ a b, c.Changes a b ∧ a < b

def Call.Lowers (c : Call) : Prop := ∃ a b, c.Changes a b ∧ b < a

/-- Only an accepted Update, of the desired count, changes the stored count. -/
theorem changes_spec {a b : Int32} (h : (call rt w t).Changes a b) (hne : a ≠ b) :
    ∃ m d s, callExit rt w t = .scaled m d s ∧ (w.disturb t).target = some d ∧ d.count = a ∧
      desiredOf (w.disturb t) m d = b ∧ 0 ≤ (desiredOf (w.disturb t) m d).toInt := by
  obtain ⟨d, d', hd, hd', rfl, rfl⟩ := h
  rcases call_target rt hd with hsame | ⟨m, s, hx, h0, hget⟩
  · rw [call_start, hsame] at hd'
    exact absurd (congrArg Deployment.count (Option.some_inj.mp hd')) hne
  · rw [call_start, hget] at hd'
    obtain rfl := Option.some_inj.mp hd'
    exact ⟨m, d, s, hx, hd, rfl, rfl, h0⟩

/-- The reading of a call with an accepted change. -/
theorem reads_of_scaled {m : Metrics} {d : Deployment} {s : DeploymentStore} {u : Int32}
    (hx : callExit rt w t = .scaled m d s) (hr : (call rt w t).Reads rt u) :
    m.kvCacheUsagePercent = u := by
  obtain ⟨m', hm', rfl⟩ := hr
  have hexits := exits_callExit rt w t
  rw [hx] at hexits
  cases hexits with
  | scaled get fetch read change update =>
    rw [call_tick, fetch] at hm'
    exact congrArg _ (Except.ok.inj hm')

/-- A raise from within the bounds was asked for by the reading. -/
theorem raises_asks_up (hmin : 1 ≤ (w.disturb t).wl.spec.minReplicas) {a b u : Int32}
    (h : (call rt w t).Changes a b) (hlt : a < b) (hb : (w.disturb t).wl.spec.InBounds a)
    (hr : (call rt w t).Reads rt u) : (w.disturb t).wl.spec.asks u = .up := by
  obtain ⟨m, d, s, hx, hd, rfl, rfl, h0⟩ := changes_spec h (Int32.ne_of_lt hlt)
  rw [← reads_of_scaled hx hr]
  exact asks_up_of_lt hmin hb h0 hlt

/-- A drop from within the bounds was asked for by the reading. -/
theorem lowers_asks_down {a b u : Int32} (h : (call rt w t).Changes a b) (hlt : b < a)
    (hb : (w.disturb t).wl.spec.InBounds a) (hr : (call rt w t).Reads rt u) :
    (w.disturb t).wl.spec.asks u = .down := by
  obtain ⟨m, d, s, hx, hd, rfl, rfl, h0⟩ := changes_spec h (Int32.ne_of_lt hlt).symm
  rw [← reads_of_scaled hx hr]
  exact asks_down_of_lt hb h0 hlt

/-- An accepted change is one to the desired count. -/
theorem changes_of_scaled {m : Metrics} {d : Deployment} {s : DeploymentStore}
    (hx : callExit rt w t = .scaled m d s) :
    (call rt w t).Changes d.count (desiredOf (w.disturb t) m d) := by
  have hexits := exits_callExit rt w t
  rw [hx] at hexits
  obtain ⟨hd, -, -⟩ := hexits.scaled_spec
  have hget := hexits.scaled_get (w.disturb t).wl.deployKey
  rw [if_pos rfl] at hget
  have hafter : (call rt w t).after.deployments = s := by
    rw [call_after, hx]
    rfl
  rw [← hafter] at hget
  exact ⟨d, _, hd, hget, rfl, rfl⟩

theorem desiredOf_disturb {key : ObjectKey} (ht : t.Undisturbed key) :
    desiredOf (w.disturb t) = desiredOf w := by
  funext m d
  rw [desiredOf, desiredOf, disturb_wl ht]

/-- An undisturbed call without errors succeeds and takes the count to the desired one. -/
theorem smooth_step (ht : t.Undisturbed w.wl.deployKey) (hs : t.Smooth) {m : Metrics}
    {d : Deployment} (hm : readAnswer rt.toPlatform t.metrics = .ok m) (hd : w.target = some d)
    (h0 : 0 ≤ desiredOf w m d) :
    (call rt w t).Succeeded rt ∧ (call rt w t).Changes d.count (desiredOf w m d) ∧
      ∃ d', (next rt w t).target = some d' ∧ d'.count = desiredOf w m d := by
  rw [← desiredOf_disturb ht] at h0 ⊢
  have hd' : (w.disturb t).target = some d := by rwa [disturb_target ht]
  have hkey : (next rt w t).wl.deployKey = (w.disturb t).wl.deployKey := by
    rw [next_deployKey rt w ht, disturb_wl ht]
  have hcall : (call rt w t).Succeeded rt ∧
      (call rt w t).Changes d.count (desiredOf (w.disturb t) m d) := by
    rcases smooth_exits hs hm hd' h0 with ⟨hsame, hx⟩ | ⟨s, -, hx⟩
    · have hx' := callExit_eq rt w t hx
      refine ⟨succeeded_iff.mpr ⟨m, d, .inl hx'⟩, d, d, hd', ?_, rfl, hsame.symm⟩
      rw [call_after, hx']
      exact hd'
    · have hx' := callExit_eq rt w t hx
      exact ⟨succeeded_iff.mpr ⟨m, d, .inr ⟨s, hx'⟩⟩, changes_of_scaled hx'⟩
  obtain ⟨hsucc, hchange⟩ := hcall
  refine ⟨hsucc, hchange, ?_⟩
  obtain ⟨-, d', -, hd'', -, hcount⟩ := hchange
  exact ⟨d', by rw [World.target, hkey]; exact hd'', hcount⟩

/-- With room above, a reading that asks up adds a replica. -/
theorem smooth_raise (ht : t.Undisturbed w.wl.deployKey) (hs : t.Smooth) {m : Metrics}
    {d : Deployment} (hm : readAnswer rt.toPlatform t.metrics = .ok m) (hd : w.target = some d)
    (hup : w.wl.spec.asks m.kvCacheUsagePercent = .up) (h0 : 0 ≤ d.count.toInt)
    (hlt : d.count.toInt < w.wl.spec.maxReplicas.toInt) :
    (call rt w t).Succeeded rt ∧ (call rt w t).Raises ∧
      ∃ d', (next rt w t).target = some d' ∧ d'.count.toInt = d.count.toInt + 1 := by
  have hdes : (desiredOf w m d).toInt = d.count.toInt + 1 := desired_succ hup hlt
  have hnonneg : 0 ≤ desiredOf w m d := by
    rw [Int32.le_iff_toInt_le, Int32.toInt_zero]
    omega
  obtain ⟨hsucc, hch, d', hd', hc'⟩ := smooth_step ht hs hm hd hnonneg
  refine ⟨hsucc, ⟨_, _, hch, ?_⟩, d', hd', by rw [hc', hdes]⟩
  rw [Int32.lt_iff_toInt_lt]
  omega

/-- With room below, a reading that asks down takes a replica away. -/
theorem smooth_lower (ht : t.Undisturbed w.wl.deployKey) (hs : t.Smooth) {m : Metrics}
    {d : Deployment} (hm : readAnswer rt.toPlatform t.metrics = .ok m) (hd : w.target = some d)
    (hdown : w.wl.spec.asks m.kvCacheUsagePercent = .down) (h0 : 0 < d.count.toInt)
    (hlt : w.wl.spec.minReplicas.toInt < d.count.toInt) :
    (call rt w t).Succeeded rt ∧ (call rt w t).Lowers ∧
      ∃ d', (next rt w t).target = some d' ∧ d'.count.toInt = d.count.toInt - 1 := by
  have hdes : (desiredOf w m d).toInt = d.count.toInt - 1 := desired_pred hdown hlt
  have hnonneg : 0 ≤ desiredOf w m d := by
    rw [Int32.le_iff_toInt_le, Int32.toInt_zero]
    omega
  obtain ⟨hsucc, hch, d', hd', hc'⟩ := smooth_step ht hs hm hd hnonneg
  refine ⟨hsucc, ⟨_, _, hch, ?_⟩, d', hd', by rw [hc', hdes]⟩
  rw [Int32.lt_iff_toInt_lt]
  omega

end InfraDemo.Operator
