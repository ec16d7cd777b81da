import InfraDemo.Operator.Step
import InfraDemo.Operator.Events
import InfraDemo.Operator.Conditions

/-!
# Settling — under answers that stay the same the controller comes to rest

From any status and any count, calls that are all answered alike move the count to the bound that the
reading asks for, or find the obstacle that keeps them from it, and then change nothing any more
(`settles`).  What a call does depends on the spec and the Deployments and not on the status
(`exitOf_congr`), and a status is recorded on top of itself (`applyTo_applyTo`).
-/

namespace InfraDemo.Operator

open InfraDemo.Go InfraDemo.Hysteresis

/-! ### Answers that stay the same -/

/-- Nobody else writes while the call runs or before it, and its status write is not refused. -/
structure Tick.Still (t : Tick) : Prop where
  edits : t.edits = []
  writes : t.writes = []
  midEdits : t.midEdits = []
  status : t.statusErr = none

/-- The same answers at another time. -/
def Tick.at (t : Tick) (clock : Stamp → Time) : Tick := { t with clock }

variable {rt : Runtime} {w v : World} {t : Tick}

theorem Tick.Still.at (h : t.Still) (clock : Stamp → Time) : (t.at clock).Still :=
  ⟨h.edits, h.writes, h.midEdits, h.status⟩

theorem Tick.Still.undisturbed (h : t.Still) (key : ObjectKey) : t.Undisturbed key :=
  ⟨h.edits, h.midEdits, fun write hw => by rw [h.writes] at hw; cases hw⟩

theorem Tick.Still.disturb (h : t.Still) (w : World) : w.disturb t = w := by
  unfold World.disturb
  rw [h.edits, h.writes]
  rfl

/-- What a call does is a matter of the spec and the Deployments. -/
theorem exitOf_congr (clock : Stamp → Time) (hkey : v.wl.key = w.wl.key)
    (hspec : v.wl.spec = w.wl.spec) (hstore : v.deployments = w.deployments) :
    exitOf rt v (t.at clock) = exitOf rt w t := by
  have htarget : v.wl.deployKey = w.wl.deployKey := by
    rw [WorkloadLifecycle.deployKey, hkey, hspec]
    rfl
  have hdesired : desiredOf v = desiredOf w := by
    funext m d
    rw [desiredOf, hspec]
    rfl
  have hsubmitted : submitted v = submitted w := by
    funext m d
    rw [submitted, hdesired]
    rfl
  unfold exitOf
  rw [htarget, hdesired, hsubmitted, hstore]
  rfl

theorem update?_congr (hspec : v.wl.spec = w.wl.spec) (x : Exit) : x.update? v = x.update? w := by
  have hdesired : desiredOf v = desiredOf w := by
    funext m d
    rw [desiredOf, hspec]
    rfl
  cases x <;> simp only [Exit.update?, hdesired]

/-! ### A status on top of itself -/

attribute [ext] WorkloadLifecycleStatus

/-- Recording an update without a scale time again changes nothing. -/
theorem applyTo_applyTo {u : StatusUpdate} (hscaled : u.scaledNow = false)
    (clock clock' : Stamp → Time) (wl : WorkloadLifecycle) {again : WorkloadLifecycle}
    (hstatus : again.status = (u.applyTo rt clock wl).status)
    (hgen : again.generation = wl.generation) :
    (u.applyTo rt clock' again).status = again.status := by
  let c := u.condition wl.generation availableType u.available
  let d := u.condition wl.generation degradedType u.degraded
  let cs := rt.conditions.set (clock .available) wl.status.conditions c
  have hne : c.type ≠ d.type := by
    show availableType ≠ degradedType
    decide
  obtain ⟨τ, hτ⟩ := rt.conditions.findCondition_set (clock .available) wl.status.conditions c
  obtain ⟨υ, hυ⟩ := rt.conditions.findCondition_set (clock .degraded) cs d
  have hc : findCondition c.type (rt.conditions.set (clock .degraded) cs d) =
      some { c with lastTransitionTime := τ } := by
    rw [findCondition_eq_head?, rt.conditions.ofType_set_of_ne _ _ _ hne, ← findCondition_eq_head?]
    exact hτ
  have hconditions : again.status.conditions = rt.conditions.set (clock .degraded) cs d := by
    rw [hstatus]
    rfl
  have havailable : rt.conditions.set (clock' .available) again.status.conditions c =
      again.status.conditions := by
    rw [hconditions]
    exact rt.conditions.set_eq_self hc
  have hdegraded : rt.conditions.set (clock' .degraded) again.status.conditions d =
      again.status.conditions := by
    rw [hconditions]
    exact rt.conditions.set_eq_self hυ
  have hlists : (u.applyTo rt clock' again).status.conditions = again.status.conditions := by
    show rt.conditions.set (clock' .degraded) (rt.conditions.set (clock' .available)
      again.status.conditions (u.condition again.generation availableType u.available))
      (u.condition again.generation degradedType u.degraded) = _
    rw [hgen]
    exact (congrArg (rt.conditions.set (clock' .degraded) · d) havailable).trans hdegraded
  refine WorkloadLifecycleStatus.ext hlists ?_ ?_ ?_ ?_
  · show u.observedKVCacheUsagePercent.getD again.status.observedKVCacheUsagePercent = _
    rw [hstatus]
    cases hu : u.observedKVCacheUsagePercent <;> simp [StatusUpdate.applyTo, hu]
  · show u.desiredReplicas.getD again.status.desiredReplicas = _
    rw [hstatus]
    cases hu : u.desiredReplicas <;> simp [StatusUpdate.applyTo, hu]
  · show (if u.scaledNow then _ else again.status.lastScaleTime) = _
    rw [hscaled]
    rfl
  · rw [hstatus]
    rfl

/-- What is recorded depends on the status and the generation. -/
theorem applyTo_congr (u : StatusUpdate) (clock : Stamp → Time) {wl wl' : WorkloadLifecycle}
    (hstatus : wl'.status = wl.status) (hgen : wl'.generation = wl.generation) :
    (u.applyTo rt clock wl').status = (u.applyTo rt clock wl).status := by
  simp only [StatusUpdate.applyTo, hstatus, hgen]

/-! ### Rest -/

/-- A call scales no Deployment and records the status that is there. -/
structure AtRest (rt : Runtime) (t : Tick) (w : World) : Prop where
  unscaled : ∀ m d s, exitOf rt w t ≠ .scaled m d s
  recorded : ∀ u, (exitOf rt w t).update? w = some u →
    ∀ clock, (u.applyTo rt clock w.wl).status = w.wl.status

theorem AtRest.congr (h : AtRest rt t w) (hkey : v.wl.key = w.wl.key)
    (hspec : v.wl.spec = w.wl.spec) (hgen : v.wl.generation = w.wl.generation)
    (hstatus : v.wl.status = w.wl.status) (hstore : v.deployments = w.deployments) :
    AtRest rt t v := by
  have hexit : exitOf rt v t = exitOf rt w t := exitOf_congr t.clock hkey hspec hstore
  constructor
  · rw [hexit]
    exact h.unscaled
  · intro u hu clock
    rw [hexit, update?_congr hspec] at hu
    rw [applyTo_congr u clock hstatus hgen, hstatus]
    exact h.recorded u hu clock

section Still

variable (ht : t.Still) (clock : Stamp → Time)

include ht

theorem callExit_at : callExit rt w (t.at clock) = exitOf rt w t := by
  rw [callExit, (ht.at clock).disturb]
  exact exitOf_congr clock rfl rfl rfl

variable (rt w) in
/-- The frame of a call. -/
theorem next_at_frame : (next rt w (t.at clock)).wl.key = w.wl.key ∧
    (next rt w (t.at clock)).wl.spec = w.wl.spec ∧
    (next rt w (t.at clock)).wl.generation = w.wl.generation ∧
    (next rt w (t.at clock)).deployments = (exitOf rt w t).deployments w := by
  have hmid : (t.at clock).midEdits = [] := ht.midEdits
  have hafter : next rt w (t.at clock) = (exitOf rt w t).after rt w (t.at clock) := by
    rw [next, call_after, callExit_at ht clock, (ht.at clock).disturb]
  rw [hafter]
  simp only [Exit.after, Exit.stored]
  cases (exitOf rt w t).update? w with
  | none => exact ⟨rfl, rfl, rfl, trivial⟩
  | some u =>
    obtain ⟨hspec, hkey, hgen⟩ := storeStatus_spec (t := t.at clock)
      (w.wl.editSpecs (t.at clock).midEdits) (u.applyTo rt clock w.wl)
    rw [hmid] at hspec hkey hgen
    simp only [hmid]
    exact ⟨hkey, hspec, hgen, trivial⟩

variable (rt w) in
/-- The status after a call. -/
theorem next_at_status : (next rt w (t.at clock)).wl.status =
    match (exitOf rt w t).update? w with
    | none => w.wl.status
    | some u => (u.applyTo rt clock w.wl).status := by
  have hafter : next rt w (t.at clock) = (exitOf rt w t).after rt w (t.at clock) := by
    rw [next, call_after, callExit_at ht clock, (ht.at clock).disturb]
  have hmid : (t.at clock).midEdits = [] := ht.midEdits
  rw [hafter]
  simp only [Exit.after, Exit.stored]
  cases (exitOf rt w t).update? w with
  | none => rfl
  | some u =>
    have haccepted : statusAnswer (t.at clock) (w.wl.editSpecs (t.at clock).midEdits)
        (u.applyTo rt (t.at clock).clock w.wl).resourceVersion = none := by
      have hstatus : (t.at clock).statusErr = none := ht.status
      rw [hmid, statusAnswer, hstatus]
      exact if_pos rfl
    simp only [storeStatus, haccepted]
    rfl

/-- A call that scales nothing brings rest. -/
theorem atRest_of_unscaled (hx : ∀ m d s, exitOf rt w t ≠ .scaled m d s) :
    AtRest rt t (next rt w (t.at clock)) := by
  obtain ⟨hkey, hspec, hgen, hstore⟩ := next_at_frame rt w ht clock
  have hsame : (exitOf rt w t).deployments w = w.deployments := by
    cases h : exitOf rt w t with
    | scaled m d s => exact absurd h (hx m d s)
    | _ => rfl
  have hexit : exitOf rt (next rt w (t.at clock)) t = exitOf rt w t :=
    exitOf_congr t.clock hkey hspec (hstore.trans hsame)
  constructor
  · rw [hexit]
    exact hx
  · intro u hu clock'
    rw [hexit, update?_congr hspec] at hu
    have hstatus := next_at_status rt w ht clock
    rw [hu] at hstatus
    refine applyTo_applyTo ?_ clock clock' w.wl hstatus hgen
    cases h : exitOf rt w t with
    | scaled m d s => exact absurd h (hx m d s)
    | unreadable err =>
      rw [h] at hu
      cases hu
    | _ =>
      rw [h] at hu
      obtain rfl := Option.some_inj.mp hu
      rfl

/-- **Rest**: a call at rest announces nothing, changes no Deployment and no status, and leaves the
controller at rest. -/
theorem AtRest.call (hr : AtRest rt t w) :
    (call rt w (t.at clock)).events = [] ∧
      (∀ p ∈ (call rt w (t.at clock)).deployWrites, p.2 ≠ none) ∧
      (next rt w (t.at clock)).deployments = w.deployments ∧
      (next rt w (t.at clock)).wl.status = w.wl.status ∧ AtRest rt t (next rt w (t.at clock)) := by
  have hx := hr.unscaled
  have hrec := hr.recorded
  have hstatus := next_at_status rt w ht clock
  obtain ⟨-, -, -, hstore⟩ := next_at_frame rt w ht clock
  rw [call_events, call_deployWrites, callExit_at ht clock, (ht.at clock).disturb, hstore]
  refine ⟨?_, ?_, ?_, ?_, atRest_of_unscaled ht clock hx⟩
  · have hreason : ∀ u, (exitOf rt w t).update? w = some u →
        w.wl.status.lastTransitionReason = u.reason := by
      intro u hu
      exact (congrArg WorkloadLifecycleStatus.lastTransitionReason (hrec u hu clock)).symm
    have hread : reasonTargetDeploymentNotFound ≠ reasonMetricsUnavailable := by decide
    have hhold : reasonHolding ≠ reasonMetricsUnavailable ∧
      reasonHolding ≠ reasonTargetDeploymentNotFound := by decide
    have hfail : reasonScaleFailed ≠ reasonMetricsUnavailable ∧
      reasonScaleFailed ≠ reasonTargetDeploymentNotFound := by decide
    generalize exitOf rt w t = x at hx hreason
    cases x with
    | scaled m d s => exact absurd rfl (hx m d s)
    | unreadable err => rfl
    | _ =>
      have hlast := hreason _ rfl
      simp [Exit.events, earlyEvents, midEvents, lateEvents, warnOnce, recoveredFrom, hlast, hread,
        hhold, hfail]
  · intro p hp
    generalize exitOf rt w t = x at hx hp
    cases x with
    | scaled m d s => exact absurd rfl (hx m d s)
    | scaleFailed m d err =>
      rw [Exit.deployWrites, List.mem_singleton] at hp
      rw [hp]
      exact Option.some_ne_none err
    | _ => cases hp
  · generalize exitOf rt w t = x at hx
    cases x with
    | scaled m d s => exact absurd rfl (hx m d s)
    | _ => rfl
  · rw [hstatus]
    cases hu : (exitOf rt w t).update? w with
    | none => rfl
    | some u => exact hrec u hu clock

end Still

/-! ### The way to rest -/

/-- The changes a call's answers still ask for. -/
def changesLeft (rt : Runtime) (t : Tick) (w : World) : ℕ :=
  match readAnswer rt.toPlatform t.metrics, w.target with
  | .ok m, some d => stepsLeft w.wl.spec.minReplicas.toInt w.wl.spec.maxReplicas.toInt
      d.count.toInt (w.wl.spec.asks m.kvCacheUsagePercent)
  | _, _ => 0

/-- No stored count is negative. -/
def World.TargetNonneg (w : World) : Prop := ∀ d, w.target = some d → 0 ≤ d.count.toInt

/-- A call that scales leaves a count that is stored, and fewer changes. -/
theorem changesLeft_lt (ht : t.Still) (clock : Stamp → Time) (h0 : w.TargetNonneg) {m : Metrics}
    {d : Deployment} {s : DeploymentStore} (hx : exitOf rt w t = .scaled m d s) :
    (next rt w (t.at clock)).TargetNonneg ∧
      changesLeft rt t (next rt w (t.at clock)) < changesLeft rt t w := by
  obtain ⟨hkey, hspec, -, hstore⟩ := next_at_frame rt w ht clock
  have hexits := exits_exitOf rt w t
  rw [hx] at hexits hstore
  obtain ⟨hd, hnonneg, -⟩ := hexits.scaled_spec
  have htarget : (next rt w (t.at clock)).target =
      some { submitted w m d with resourceVersion := d.resourceVersion + 1 } := by
    have hdeployKey : (next rt w (t.at clock)).wl.deployKey = w.wl.deployKey := by
      simp only [WorkloadLifecycle.deployKey, hkey, hspec]
    rw [World.target, hdeployKey, hstore]
    exact (hexits.scaled_get _).trans (if_pos rfl)
  cases hexits with
  | scaled get fetch read change update =>
    have hc := h0 d hd
    have hstep : (desiredOf w m d).toInt = clampStep w.wl.spec.minReplicas.toInt
        w.wl.spec.maxReplicas.toInt d.count.toInt (w.wl.spec.asks m.kvCacheUsagePercent) :=
      computeDesiredReplicas_toInt (asks_up_lt_of_nonneg hnonneg) fun _ => by omega
    refine ⟨?_, ?_⟩
    · intro d' hd'
      rw [htarget] at hd'
      rw [← Option.some_inj.mp hd']
      exact hnonneg
    · have hne : (desiredOf w m d).toInt ≠ d.count.toInt := fun h => change (Int32.toInt_inj.mp h)
      simp only [changesLeft, fetch, htarget, hd, submitted_count, hspec]
      rw [hstep] at hne ⊢
      exact stepsLeft_clampStep_lt hne

/-- **The controller comes to rest**: where every call gets the same answers and nobody else writes,
more calls than the changes left at the start end in a state in which every later call announces
nothing, changes no Deployment and leaves the status as it is. -/
theorem settles (ht : t.Still) (h0 : w.TargetNonneg) (clocks : List (Stamp → Time))
    (hlen : changesLeft rt t w < clocks.length) (later : List (Stamp → Time)) :
    ∀ c ∈ calls rt (Run.final (next rt) w (clocks.map t.at)) (later.map t.at),
      c.events = [] ∧ (∀ p ∈ c.deployWrites, p.2 ≠ none) ∧
        c.after.deployments = (Run.final (next rt) w (clocks.map t.at)).deployments ∧
        c.after.wl.status = (Run.final (next rt) w (clocks.map t.at)).wl.status := by
  let A : Tick → Prop := fun i => ∃ clock, i = t.at clock
  have hticks : ∀ cs : List (Stamp → Time), ∀ i ∈ cs.map t.at, A i := by
    intro cs i hi
    obtain ⟨clock, -, rfl⟩ := List.mem_map.mp hi
    exact ⟨clock, rfl⟩
  have hrest : AtRest rt t (Run.final (next rt) w (clocks.map t.at)) := by
    refine Run.final_settles (I := World.TargetNonneg) (A := A) (changesLeft rt t) ?_ ?_ h0
      (hticks clocks) (by rw [List.length_map]; exact hlen)
    · rintro v i ⟨clock, rfl⟩ hv
      exact (hv.call ht clock).2.2.2.2
    · rintro v i ⟨clock, rfl⟩ hv
      by_cases hx : ∃ m d s, exitOf rt v t = .scaled m d s
      · obtain ⟨m, d, s, hx⟩ := hx
        exact .inr (changesLeft_lt ht clock hv hx)
      · exact .inl (atRest_of_unscaled ht clock fun m d s h => hx ⟨m, d, s, h⟩)
  generalize Run.final (next rt) w (clocks.map t.at) = v at hrest ⊢
  refine Run.forall_records (A := A)
    (I := fun u => AtRest rt t u ∧ u.deployments = v.deployments ∧ u.wl.status = v.wl.status)
    ?_ ⟨hrest, rfl, rfl⟩ (hticks later)
  rintro u i ⟨clock, rfl⟩ ⟨hu, hstore, hstatus⟩
  obtain ⟨hevents, hwrites, hstore', hstatus', hu'⟩ := hu.call ht clock
  exact ⟨⟨hu', hstore'.trans hstore, hstatus'.trans hstatus⟩, hevents, hwrites,
    hstore'.trans hstore, hstatus'.trans hstatus⟩

theorem still_serving (body : String) : (Tick.serving body).Still := ⟨rfl, rfl, rfl, rfl⟩

theorem target_fresh (replicas : Option Int32) : (World.fresh .sample replicas).target =
    some { key := ⟨"default", "mock-vllm"⟩, resourceVersion := 1, replicas, rest := [] } := rfl

/-- From one replica a usage of 90% leaves two changes: the fourth call finds rest. -/
theorem settles_sample : (calls (.exact 0) (Run.final (next (.exact 0)) (.fresh .sample (some 1))
    ([fun _ => 0, fun _ => 15, fun _ => 30].map
      (Tick.serving "vllm_kv_cache_usage_perc 0.9").at))
    ([fun _ => 45].map (Tick.serving "vllm_kv_cache_usage_perc 0.9").at)).map Call.events = [[]] := by
  have h0 : (World.fresh .sample (some 1)).TargetNonneg := by
    intro d hd
    rw [target_fresh] at hd
    rw [← Option.some_inj.mp hd]
    decide
  have hleft : changesLeft (.exact 0) (Tick.serving "vllm_kv_cache_usage_perc 0.9")
      (.fresh .sample (some 1)) = 2 := by
    simp only [changesLeft, readAnswer_ninety, target_fresh]
    decide
  have hrest := settles (still_serving _) h0 [fun _ => 0, fun _ => 15, fun _ => 30]
    (by rw [hleft]; decide) [fun _ => 45]
  exact congrArg (· :: []) (hrest _ (List.mem_singleton_self _)).1

end InfraDemo.Operator
