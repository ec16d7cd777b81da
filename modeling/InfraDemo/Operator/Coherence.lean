import InfraDemo.Operator.Trace

/-!
# Coherence — what every stored status says about its history

Whatever fails, a stored status is the initial empty one or the one the last persisted call wrote
over the one before it.  `Coherent` is the invariant: one Available and one Degraded condition that
agree with the recorded reason, transition times that date from the first write of the last block of
writes with one condition status, and fields that an exit without a fresh value leaves as they were.
-/

namespace InfraDemo.Operator

open InfraDemo.Go InfraDemo.Blocks

/-! ### The invariant -/

/-- The calls whose status writes persisted. -/
def persistedCalls (cs : List Call) : List Call := cs.filter fun c => c.Persisted

/-- The status the last of them wrote. -/
def lastStatus (ps : List Call) : WorkloadLifecycleStatus :=
  (ps.getLast?.bind Call.status?).getD {}

/-- The status of the condition of a type in the status a call submits. -/
def Call.gives (type : String) (c : Call) : Option ConditionStatus :=
  c.status?.bind fun s => (findCondition type s.conditions).map Condition.status

/-- `x` is the condition of its type in the status `s` that `c` wrote after the calls `ps`; `stamp` is
the reading of the clock that dates it. -/
structure Carries (ps : List Call) (c : Call) (s : WorkloadLifecycleStatus) (type : String)
    (stamp : Stamp) (message : String) (x : Condition) : Prop where
  only : ofType type s.conditions = [x]
  reason : x.reason = s.lastTransitionReason
  message_eq : x.message = message
  generation : x.observedGeneration = c.start.wl.generation
  since : ∃ r, StartsLast (Call.gives type) r (ps ++ [c]) ∧ r.gives type = some x.status ∧
    x.lastTransitionTime = some (r.tick.clock stamp)

/-- Reason, Available and Degraded as they are recorded together. -/
def recordedTriples : List (String × ConditionStatus × ConditionStatus) :=
  [(reasonMetricsUnavailable, .conditionFalse, .conditionTrue),
    (reasonTargetDeploymentNotFound, .conditionFalse, .conditionTrue),
    (reasonScaleFailed, .conditionTrue, .conditionTrue),
    (reasonHolding, .conditionTrue, .conditionFalse),
    (reasonScaledUp, .conditionTrue, .conditionFalse),
    (reasonScaledDown, .conditionTrue, .conditionFalse)]

/-- The status `s` that `c` wrote after the persisted calls `ps`. -/
structure Coherent (ps : List Call) (c : Call) (s : WorkloadLifecycleStatus) : Prop where
  written : c.status? = some s
  conditions : ∃ message a d, Carries ps c s availableType .available message a ∧
    Carries ps c s degradedType .degraded message d ∧
    (s.lastTransitionReason, a.status, d.status) ∈ recordedTriples
  usage : s.lastTransitionReason = reasonMetricsUnavailable →
    s.observedKVCacheUsagePercent = (lastStatus ps).observedKVCacheUsagePercent
  desired : s.lastTransitionReason ∈ [reasonMetricsUnavailable, reasonTargetDeploymentNotFound] →
    s.desiredReplicas = (lastStatus ps).desiredReplicas
  scaleTime : s.lastTransitionReason ∉ [reasonScaledUp, reasonScaledDown] →
    s.lastScaleTime = (lastStatus ps).lastScaleTime

theorem triple_mem : ∀ o : Outcome, (o.reason, o.available, o.degraded) ∈ recordedTriples := by
  decide

/-! ### One status write -/

section Write

variable {rt : Runtime} {u : StatusUpdate} {clock : Stamp → Time} {wl : WorkloadLifecycle}

theorem ofType_available : ofType availableType (u.applyTo rt clock wl).status.conditions =
    match ofType availableType wl.status.conditions with
    | [] => [(u.condition wl.generation availableType u.available).stamp (clock .available)]
    | old :: rest => old.replace (clock .available)
        (u.condition wl.generation availableType u.available) :: rest := by
  have hne : availableType ≠ (u.condition wl.generation degradedType u.degraded).type := by
    show availableType ≠ degradedType
    decide
  refine (rt.conditions.ofType_set_of_ne _ _ _ hne).trans ?_
  exact rt.conditions.ofType_set_self _ _ (u.condition wl.generation availableType u.available)

theorem ofType_degraded : ofType degradedType (u.applyTo rt clock wl).status.conditions =
    match ofType degradedType wl.status.conditions with
    | [] => [(u.condition wl.generation degradedType u.degraded).stamp (clock .degraded)]
    | old :: rest => old.replace (clock .degraded)
        (u.condition wl.generation degradedType u.degraded) :: rest := by
  have hne : degradedType ≠ (u.condition wl.generation availableType u.available).type := by
    show degradedType ≠ availableType
    decide
  rw [← rt.conditions.ofType_set_of_ne (clock .available) wl.status.conditions _ hne]
  exact rt.conditions.ofType_set_self _ _ (u.condition wl.generation degradedType u.degraded)

/-- The fields an exit has no fresh value for. -/
theorem update?_keeps {w : World} {x : Exit} {o : Outcome} (h : x.update? w = some u)
    (ho : x.outcome? w = some o) :
    (o = .metricsFailed → u.observedKVCacheUsagePercent = none) ∧
      (o ∈ [Outcome.metricsFailed, .readFailed] → u.desiredReplicas = none) ∧
      (o ∉ [Outcome.scaledUp, .scaledDown] → u.scaledNow = false) := by
  cases x with
  | unreadable err => cases h
  | scaled metrics deploy s =>
    have hmem : o ∈ [Outcome.scaledUp, .scaledDown] := by
      obtain rfl := Option.some_inj.mp ho
      split_ifs <;> decide
    have table : ∀ o ∈ [Outcome.scaledUp, .scaledDown], o ≠ .metricsFailed ∧
        o ∉ [Outcome.metricsFailed, .readFailed] := by decide
    exact ⟨fun hm => absurd hm (table o hmem).1, fun hm => absurd hm (table o hmem).2,
      fun hn => absurd hmem hn⟩
  | _ =>
    cases h
    cases ho
    simp

variable (rt clock) in
/-- The same by the recorded reason. -/
theorem applyTo_keeps {w : World} {x : Exit} (h : x.update? w = some u) :
    let s := (u.applyTo rt clock w.wl).status
    (s.lastTransitionReason = reasonMetricsUnavailable →
      s.observedKVCacheUsagePercent = w.wl.status.observedKVCacheUsagePercent) ∧
    (s.lastTransitionReason ∈ [reasonMetricsUnavailable, reasonTargetDeploymentNotFound] →
      s.desiredReplicas = w.wl.status.desiredReplicas) ∧
    (s.lastTransitionReason ∉ [reasonScaledUp, reasonScaledDown] →
      s.lastScaleTime = w.wl.status.lastScaleTime) := by
  have table : ∀ o : Outcome, (o.reason = reasonMetricsUnavailable → o = .metricsFailed) ∧
      (o.reason ∈ [reasonMetricsUnavailable, reasonTargetDeploymentNotFound] →
        o ∈ [Outcome.metricsFailed, .readFailed]) ∧
      (o.reason ∉ [reasonScaledUp, reasonScaledDown] →
        o ∉ [Outcome.scaledUp, .scaledDown]) := by decide
  rcases update?_outcome? w x with ⟨hnone, -⟩ | ⟨u', o, hu, ho, hr, -, -⟩
  · rw [hnone] at h
    cases h
  · obtain rfl : u = u' := Option.some_inj.mp (h.symm.trans hu)
    obtain ⟨husage, hdesired, hscale⟩ := update?_keeps h ho
    obtain ⟨t1, t2, t3⟩ := table o
    rw [← hr] at t1 t2 t3
    refine ⟨fun hs => ?_, fun hs => ?_, fun hs => ?_⟩
    · simp only [StatusUpdate.applyTo, husage (t1 hs), Option.getD_none]
    · simp only [StatusUpdate.applyTo, hdesired (t2 hs), Option.getD_none]
    · simp only [StatusUpdate.applyTo, hscale (t3 hs), Bool.false_eq_true, if_false]

end Write

/-! ### One call -/

/-- The condition of a type after the persisted calls `qs`, if there were any. -/
def Carried (qs : List Call) (s : WorkloadLifecycleStatus) (type : String) (stamp : Stamp) : Prop :=
  (qs = [] ∧ ofType type s.conditions = []) ∨
    ∃ ps c m x, qs = ps ++ [c] ∧ Carries ps c s type stamp m x

/-- A new condition in the place of the one before it. -/
theorem carries_step {qs : List Call} {c : Call} {s s' : WorkloadLifecycleStatus} {type : String}
    {stamp : Stamp} {new : Condition} (hprev : Carried qs s type stamp)
    (hs : c.status? = some s')
    (hset : ofType type s'.conditions = match ofType type s.conditions with
      | [] => [new.stamp (c.tick.clock stamp)]
      | old :: rest => old.replace (c.tick.clock stamp) new :: rest)
    (htime : new.lastTransitionTime = none) (hreason : new.reason = s'.lastTransitionReason)
    (hgen : new.observedGeneration = c.start.wl.generation) :
    ∃ x, Carries qs c s' type stamp new.message x ∧ x.status = new.status := by
  have hgives : ∀ x, ofType type s'.conditions = [x] → c.gives type = some x.status := by
    intro x hx
    simp [Call.gives, hs, findCondition_eq_head?, hx]
  have hstamp : (new.stamp (c.tick.clock stamp)).lastTransitionTime =
      some (c.tick.clock stamp) := by
    rw [Condition.stamp, htime]
    rfl
  rcases hprev with ⟨rfl, hnil⟩ | ⟨ps, d, m, old, rfl, hold⟩
  · rw [hnil] at hset
    have hstart : StartsLast (Call.gives type) c ([] ++ [c]) := startsLast_concat (by simp)
    exact ⟨_, ⟨hset, hreason, rfl, hgen, c, hstart, hgives _ hset, hstamp⟩, rfl⟩
  · rw [hold.only] at hset
    obtain ⟨r, hr, hrgives, hrtime⟩ := hold.since
    refine ⟨old.replace (c.tick.clock stamp) new, ⟨hset, by rw [replace_reason, hreason],
      replace_message, by rw [replace_observedGeneration, hgen], ?_⟩, replace_status⟩
    have hc := hgives _ hset
    rw [replace_status] at hc ⊢
    by_cases heq : old.status = new.status
    · -- the block of the old condition goes on
      refine ⟨r, hr.concat ?_, by rw [hrgives, heq], ?_⟩
      · rw [hc, hrgives, heq]
      · rw [Condition.replace, if_pos heq]
        exact hrtime
    · -- a block starts
      refine ⟨c, startsLast_concat fun y hy => ?_, hc, ?_⟩
      · rw [hr.eq_of_getLast? hy, hrgives, hc]
        exact fun h => heq (Option.some_inj.mp h)
      · rw [Condition.replace, if_neg heq]
        exact hstamp

section Step

variable {rt : Runtime} {w : World} {t : Tick} {cs : List Call}

/-- What holds of the calls so far and the world after them. -/
def CoherentAfter (cs : List Call) (w : World) : Prop :=
  (w.wl.status = {} ∧ persistedCalls cs = []) ∨
    ∃ ps c, persistedCalls cs = ps ++ [c] ∧ Coherent ps c w.wl.status

theorem CoherentAfter.lastStatus_eq (h : CoherentAfter cs w) :
    lastStatus (persistedCalls cs) = w.wl.status := by
  rcases h with ⟨hs, hnil⟩ | ⟨ps, c, hps, hc⟩
  · rw [hnil, hs]
    rfl
  · rw [hps, lastStatus, List.getLast?_concat, Option.bind_some, hc.written]
    rfl

theorem CoherentAfter.carried (h : CoherentAfter cs w) :
    Carried (persistedCalls cs) w.wl.status availableType .available ∧
      Carried (persistedCalls cs) w.wl.status degradedType .degraded := by
  rcases h with ⟨hs, hnil⟩ | ⟨ps, c, hps, hc⟩
  · rw [hnil, hs]
    exact ⟨.inl ⟨rfl, rfl⟩, .inl ⟨rfl, rfl⟩⟩
  · obtain ⟨m, a, d, ha, hd, -⟩ := hc.conditions
    exact ⟨.inr ⟨ps, c, m, a, hps, ha⟩, .inr ⟨ps, c, m, d, hps, hd⟩⟩

/-- **One call keeps the status coherent.** -/
theorem coherent_step (h : CoherentAfter cs w) :
    CoherentAfter (cs ++ [call rt w t]) (next rt w t) := by
  have hlast := h.lastStatus_eq
  rcases after_status rt w t with ⟨hp, u, hu, hs⟩ | ⟨hno, hs⟩
  · have hps : persistedCalls (cs ++ [call rt w t]) = persistedCalls cs ++ [call rt w t] := by
      simp [persistedCalls, hp]
    have hold := disturb_status w t
    have hwritten : (call rt w t).status? = some (next rt w t).wl.status := by
      rw [status?_call hu, hs]
    obtain ⟨o, -, hr, ha, hd⟩ := outcome_of_update hu
    have hreason : (next rt w t).wl.status.lastTransitionReason = u.reason := by
      rw [hs]
      rfl
    obtain ⟨husage, hdesired, hscale⟩ := applyTo_keeps rt t.clock hu
    rw [call_start, ← hs, hold, ← hlast] at husage hdesired hscale
    obtain ⟨hcarriedA, hcarriedD⟩ := h.carried
    rw [← hold] at hcarriedA hcarriedD
    obtain ⟨a, hca, hastatus⟩ : ∃ x, Carries (persistedCalls cs) (call rt w t)
        (next rt w t).wl.status availableType .available u.message x ∧ x.status = u.available :=
      carries_step hcarriedA hwritten (by rw [hs]; exact ofType_available) rfl hreason.symm rfl
    obtain ⟨d, hcd, hdstatus⟩ : ∃ x, Carries (persistedCalls cs) (call rt w t)
        (next rt w t).wl.status degradedType .degraded u.message x ∧ x.status = u.degraded :=
      carries_step hcarriedD hwritten (by rw [hs]; exact ofType_degraded) rfl hreason.symm rfl
    refine .inr ⟨_, _, hps, hwritten, ⟨_, a, d, hca, hcd, ?_⟩, husage, hdesired, hscale⟩
    rw [hreason, hastatus, hdstatus, hr, ha, hd]
    exact triple_mem o
  · have hps : persistedCalls (cs ++ [call rt w t]) = persistedCalls cs := by
      simp [persistedCalls, hno]
    rw [CoherentAfter, hps, hs]
    exact h

/-- **Status coherence**: after every run from the empty status, whatever failed in it, the stored
status is still empty and nothing was persisted, or it is coherent with the persisted calls. -/
theorem status_coherent (h0 : w.wl.status = {}) (ts : List Tick) :
    ((Run.final (next rt) w ts).wl.status = {} ∧ persistedCalls (calls rt w ts) = []) ∨
      ∃ ps c, persistedCalls (calls rt w ts) = ps ++ [c] ∧
        Coherent ps c (Run.final (next rt) w ts).wl.status :=
  Run.final_rec (J := CoherentAfter) (A := fun _ => True) (.inl ⟨h0, rfl⟩)
    (fun _ _ _ _ h => coherent_step h) ts fun _ _ => trivial

end Step

theorem status_coherent_sample :
    ((Run.final (next (.exact 0)) (.fresh .sample (some 2)) [.unreachable, .lost]).wl.status = {} ∧
      persistedCalls (calls (.exact 0) (.fresh .sample (some 2)) [.unreachable, .lost]) = []) ∨
      ∃ ps c, persistedCalls (calls (.exact 0) (.fresh .sample (some 2)) [.unreachable, .lost]) =
          ps ++ [c] ∧ Coherent ps c
        (Run.final (next (.exact 0)) (.fresh .sample (some 2)) [.unreachable, .lost]).wl.status :=
  status_coherent rfl _

end InfraDemo.Operator
