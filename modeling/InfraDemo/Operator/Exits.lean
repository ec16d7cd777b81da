import InfraDemo.Operator.Cluster

/-!
# Exits — what one call of `reconcile` does

Everything a call does is a function of its exit path.  `Exit` names the six paths, `exitOf` finds
the path of a call and `Exits` says when each is taken.  `call_result`, `call_trace` and `call_after`
give the result, the exchanges and the final world of each path; the later modules reason about exit
paths and never unfold `reconcile`.
-/

namespace InfraDemo.Operator

open InfraDemo.Go

variable (rt : Runtime)

/-! ### Exit paths -/

/-- The exit paths of `reconcile`, with what was observed on the way. -/
inductive Exit where
  | unreadable (err : ApiError)
  | metricsUnavailable (err : String)
  | targetDeploymentNotFound (metrics : Metrics) (err : ApiError)
  | holding (metrics : Metrics) (deploy : Deployment)
  | scaleFailed (metrics : Metrics) (deploy : Deployment) (err : ApiError)
  | scaled (metrics : Metrics) (deploy : Deployment) (store : DeploymentStore)

/-- The count a call asks for, from what it observed. -/
def desiredOf (w : World) (metrics : Metrics) (deploy : Deployment) : Int32 :=
  computeDesiredReplicas deploy.count metrics.kvCacheUsagePercent w.wl.spec

/-- The Deployment a call submits. -/
def submitted (w : World) (metrics : Metrics) (deploy : Deployment) : Deployment :=
  { deploy with replicas := desiredOf w metrics deploy }

/-- The exit path of a call that starts in `w`. -/
def exitOf (w : World) (t : Tick) : Exit :=
  match t.getErr with
  | some err => .unreadable err
  | none =>
    match readAnswer rt.toPlatform t.metrics with
    | .error err => .metricsUnavailable err
    | .ok metrics =>
      match deployAnswer t w.deployments w.wl.deployKey with
      | .error err => .targetDeploymentNotFound metrics err
      | .ok deploy =>
        if desiredOf w metrics deploy = deploy.count then .holding metrics deploy
        else match updateAnswer t w.deployments (submitted w metrics deploy) with
          | .error err => .scaleFailed metrics deploy err
          | .ok s => .scaled metrics deploy s

/-- When each exit path is taken. -/
inductive Exits (w : World) (t : Tick) : Exit → Prop where
  | unreadable {err : ApiError} (get : t.getErr = some err) : Exits w t (.unreadable err)
  | metricsUnavailable {err : String} (get : t.getErr = none)
      (fetch : readAnswer rt.toPlatform t.metrics = .error err) :
      Exits w t (.metricsUnavailable err)
  | targetDeploymentNotFound {metrics : Metrics} {err : ApiError} (get : t.getErr = none)
      (fetch : readAnswer rt.toPlatform t.metrics = .ok metrics)
      (read : deployAnswer t w.deployments w.wl.deployKey = .error err) :
      Exits w t (.targetDeploymentNotFound metrics err)
  | holding {metrics : Metrics} {deploy : Deployment} (get : t.getErr = none)
      (fetch : readAnswer rt.toPlatform t.metrics = .ok metrics)
      (read : deployAnswer t w.deployments w.wl.deployKey = .ok deploy)
      (same : desiredOf w metrics deploy = deploy.count) : Exits w t (.holding metrics deploy)
  | scaleFailed {metrics : Metrics} {deploy : Deployment} {err : ApiError} (get : t.getErr = none)
      (fetch : readAnswer rt.toPlatform t.metrics = .ok metrics)
      (read : deployAnswer t w.deployments w.wl.deployKey = .ok deploy)
      (change : desiredOf w metrics deploy ≠ deploy.count)
      (update : updateAnswer t w.deployments (submitted w metrics deploy) = .error err) :
      Exits w t (.scaleFailed metrics deploy err)
  | scaled {metrics : Metrics} {deploy : Deployment} {s : DeploymentStore} (get : t.getErr = none)
      (fetch : readAnswer rt.toPlatform t.metrics = .ok metrics)
      (read : deployAnswer t w.deployments w.wl.deployKey = .ok deploy)
      (change : desiredOf w metrics deploy ≠ deploy.count)
      (update : updateAnswer t w.deployments (submitted w metrics deploy) = .ok s) :
      Exits w t (.scaled metrics deploy s)

theorem exits_exitOf (w : World) (t : Tick) : Exits rt w t (exitOf rt w t) := by
  unfold exitOf
  cases hg : t.getErr with
  | some err => exact .unreadable hg
  | none =>
    cases hf : readAnswer rt.toPlatform t.metrics with
    | error err => exact .metricsUnavailable hg hf
    | ok metrics =>
      cases hd : deployAnswer t w.deployments w.wl.deployKey with
      | error err => simp only; exact .targetDeploymentNotFound hg hf hd
      | ok deploy =>
        by_cases hs : desiredOf w metrics deploy = deploy.count
        · simp only [if_pos hs]
          exact .holding hg hf hd hs
        · simp only [if_neg hs]
          cases hu : updateAnswer t w.deployments (submitted w metrics deploy) with
          | error err => exact .scaleFailed hg hf hd hs hu
          | ok s => exact .scaled hg hf hd hs hu

/-- A call has one exit path. -/
theorem Exits.exitOf_eq {w : World} {t : Tick} {x : Exit} (hx : Exits rt w t x) :
    exitOf rt w t = x := by
  unfold exitOf
  cases hx with
  | unreadable get => simp only [get]
  | metricsUnavailable get fetch => simp only [get, fetch]
  | targetDeploymentNotFound get fetch read => simp only [get, fetch, read]
  | holding get fetch read same => simp only [get, fetch, read, if_pos same]
  | scaleFailed get fetch read change update =>
    simp only [get, fetch, read, if_neg change, update]
  | scaled get fetch read change update =>
    simp only [get, fetch, read, if_neg change, update]

/-! ### What a path writes -/

/-- The status update of a path; an unreadable object has none. -/
def Exit.update? (w : World) : Exit → Option StatusUpdate
  | .unreadable _ => none
  | .metricsUnavailable err => some
    { reason := reasonMetricsUnavailable, available := .conditionFalse
      degraded := .conditionTrue, message := err }
  | .targetDeploymentNotFound metrics err => some
    { reason := reasonTargetDeploymentNotFound, available := .conditionFalse
      degraded := .conditionTrue, message := err.text
      observedKVCacheUsagePercent := metrics.kvCacheUsagePercent }
  | .holding metrics deploy => some
    { reason := reasonHolding, available := .conditionTrue, degraded := .conditionFalse
      observedKVCacheUsagePercent := metrics.kvCacheUsagePercent
      desiredReplicas := desiredOf w metrics deploy }
  | .scaleFailed metrics deploy err => some
    { reason := reasonScaleFailed, available := .conditionTrue, degraded := .conditionTrue
      message := err.text, observedKVCacheUsagePercent := metrics.kvCacheUsagePercent
      desiredReplicas := desiredOf w metrics deploy }
  | .scaled metrics deploy _ => some
    { reason := scaleReason deploy.count (desiredOf w metrics deploy)
      available := .conditionTrue, degraded := .conditionFalse
      observedKVCacheUsagePercent := metrics.kvCacheUsagePercent
      desiredReplicas := desiredOf w metrics deploy, scaledNow := true }

/-- The object `recordStatus` submits. -/
def StatusUpdate.applyTo (u : StatusUpdate) (clock : Stamp → Time) (wl : WorkloadLifecycle) :
    WorkloadLifecycle :=
  { wl with
    status :=
      { conditions := rt.conditions.set (clock .degraded)
          (rt.conditions.set (clock .available) wl.status.conditions
            (u.condition wl.generation availableType u.available))
          (u.condition wl.generation degradedType u.degraded)
        observedKVCacheUsagePercent :=
          u.observedKVCacheUsagePercent.getD wl.status.observedKVCacheUsagePercent
        desiredReplicas := u.desiredReplicas.getD wl.status.desiredReplicas
        lastScaleTime := if u.scaledNow then some (clock .lastScaleTime) else wl.status.lastScaleTime
        lastTransitionReason := u.reason } }

/-- A Recovered event where the last recorded reason is `reason`. -/
def recoveredFrom (wl : WorkloadLifecycle) (reason : String) : List Event :=
  if wl.status.lastTransitionReason = reason then [recovered wl reason] else []

/-- A Warning event unless the last recorded reason is the same. -/
def warnOnce (wl : WorkloadLifecycle) (reason message : String) : List Event :=
  if wl.status.lastTransitionReason = reason then [] else [warning wl reason message]

/-- The event of an accepted change. -/
def scaledEventOf (w : World) (metrics : Metrics) (deploy : Deployment) : Event :=
  let desired := desiredOf w metrics deploy
  scaledEvent w.wl (scaleReason deploy.count desired) deploy.count desired
    metrics.kvCacheUsagePercent
    (if scaleReason deploy.count desired = reasonScaledDown then
      w.wl.spec.kvCacheScaleDownThresholdPercent
    else w.wl.spec.kvCacheThresholdPercent)

/-- The events before the Deployment read, for a call that has its metrics. -/
def earlyEvents (wl : WorkloadLifecycle) : Exit → List Event
  | .unreadable _ => []
  | .metricsUnavailable err => warnOnce wl reasonMetricsUnavailable err
  | _ => recoveredFrom wl reasonMetricsUnavailable

/-- The events between the Deployment read and the Deployment write. -/
def midEvents (wl : WorkloadLifecycle) : Exit → List Event
  | .unreadable _ => []
  | .metricsUnavailable _ => []
  | .targetDeploymentNotFound _ err => warnOnce wl reasonTargetDeploymentNotFound err.text
  | _ => recoveredFrom wl reasonTargetDeploymentNotFound

/-- The events after the Deployment write. -/
def lateEvents (w : World) : Exit → List Event
  | .scaleFailed _ _ err => warnOnce w.wl reasonScaleFailed err.text
  | .scaled metrics deploy _ => [scaledEventOf w metrics deploy]
  | _ => []

/-- The events of a path, in order. -/
def Exit.events (w : World) (x : Exit) : List Event :=
  earlyEvents w.wl x ++ midEvents w.wl x ++ lateEvents w x

/-- The Deployments after a path. -/
def Exit.deployments (w : World) : Exit → DeploymentStore
  | .scaled _ _ s => s
  | _ => w.deployments

/-! ### Exchanges -/

def eventTrace (events : List Event) : List Exchange := events.map fun e => ⟨.recordEvent e, ()⟩

/-- The exchanges of `recordStatus` where `stored` is stored when the status is written. -/
def statusTrace (t : Tick) (stored wl : WorkloadLifecycle) (u : StatusUpdate) : List Exchange :=
  (if u.scaledNow then [⟨.now .lastScaleTime, t.clock .lastScaleTime⟩] else []) ++
    [⟨.now .available, t.clock .available⟩, ⟨.now .degraded, t.clock .degraded⟩,
      ⟨.updateStatus (u.applyTo rt t.clock wl), statusAnswer t stored wl.resourceVersion⟩]

/-- The exchanges of `makeAdjustmentIfNeeded` before it records the status. -/
def adjustTrace (w : World) (x : Exit) : List Exchange :=
  match x with
  | .scaleFailed metrics deploy err =>
    ⟨.updateDeployment (submitted w metrics deploy), some err⟩ :: eventTrace (lateEvents w x)
  | .scaled metrics deploy _ =>
    ⟨.updateDeployment (submitted w metrics deploy), none⟩ :: eventTrace (lateEvents w x)
  | _ => []

/-- The exchanges between the metrics and the status write, for a call that has its metrics. -/
def deployTrace (w : World) (x : Exit) : List Exchange :=
  match x with
  | .unreadable _ => []
  | .metricsUnavailable _ => []
  | .targetDeploymentNotFound _ err =>
    ⟨.getDeployment w.wl.deployKey, .error err⟩ :: eventTrace (midEvents w.wl x)
  | .holding _ deploy | .scaleFailed _ deploy _ | .scaled _ deploy _ =>
    ⟨.getDeployment w.wl.deployKey, .ok deploy⟩ ::
      (eventTrace (midEvents w.wl x) ++ adjustTrace w x)

/-- The exchanges of a path. -/
def Exit.trace (w : World) (t : Tick) (x : Exit) : List Exchange :=
  match x, x.update? w with
  | .unreadable err, _ => [⟨.getWorkload w.wl.key, .error err⟩]
  | _, none => []
  | _, some u =>
    ⟨.getWorkload w.wl.key, .ok w.wl⟩ :: ⟨.httpGet w.wl.spec.metricsEndpoint, t.metrics⟩ ::
      (eventTrace (earlyEvents w.wl x) ++
        (deployTrace w x ++ statusTrace rt t (w.wl.editSpecs t.midEdits) w.wl u))

/-- The result of a path. -/
def Exit.result : Exit → Result × Option ApiError
  | .unreadable err => ({}, ignoreNotFound err)
  | .scaleFailed _ _ err => ({ requeueAfter := 15 }, some err)
  | _ => ({ requeueAfter := 15 }, none)

/-- The stored object after a path: the spec edits that landed, and the status if the write was
accepted. -/
def Exit.stored (w : World) (t : Tick) (x : Exit) : WorkloadLifecycle :=
  match x.update? w with
  | none => w.wl
  | some u => storeStatus t (w.wl.editSpecs t.midEdits) (u.applyTo rt t.clock w.wl)

/-- The world after a path. -/
def Exit.after (w : World) (t : Tick) (x : Exit) : World where
  wl := x.stored rt w t
  deployments := x.deployments w

/-! ### Runs of the helpers -/

section Helpers

variable (t : Tick) (w : World) (wl : WorkloadLifecycle)

@[simp] theorem run_recordEventIf (cond : Prop) [Decidable cond] (event : Event) :
    (recordEventIf cond event).run (handle t) w = ((), w) := by
  unfold recordEventIf
  split_ifs <;> rfl

@[simp] theorem trace_warnOnce (reason message : String) :
    (recordEventIf (wl.status.lastTransitionReason ≠ reason) (warning wl reason message)).trace
      (handle t) w = eventTrace (warnOnce wl reason message) := by
  unfold recordEventIf warnOnce
  by_cases h : wl.status.lastTransitionReason = reason
  · rw [if_neg (not_not.mpr h), if_pos h]; rfl
  · rw [if_pos h, if_neg h]; rfl

@[simp] theorem trace_recoveredFrom (reason : String) :
    (recordEventIf (wl.status.lastTransitionReason = reason)
      (recovered wl wl.status.lastTransitionReason)).trace (handle t) w =
        eventTrace (recoveredFrom wl reason) := by
  unfold recordEventIf recoveredFrom
  by_cases h : wl.status.lastTransitionReason = reason
  · rw [if_pos h, if_pos h, h]; rfl
  · rw [if_neg h, if_neg h]; rfl

@[simp] theorem run_scaleTime (u : StatusUpdate) : (scaleTime wl u).run (handle t) w =
    (if u.scaledNow then some (t.clock .lastScaleTime) else wl.status.lastScaleTime, w) := by
  unfold scaleTime
  split_ifs <;> rfl

@[simp] theorem trace_scaleTime (u : StatusUpdate) : (scaleTime wl u).trace (handle t) w =
    if u.scaledNow then [⟨.now .lastScaleTime, t.clock .lastScaleTime⟩] else [] := by
  unfold scaleTime
  split_ifs <;> rfl

@[simp] theorem run_recordStatus (u : StatusUpdate) : (recordStatus rt wl u).run (handle t) w =
    ((), { w with wl := storeStatus t w.wl (u.applyTo rt t.clock wl) }) := by
  simp only [recordStatus, Prog.run_bind, run_scaleTime, Prog.run_perform, Prog.run_pure]
  rfl

@[simp] theorem trace_recordStatus (u : StatusUpdate) :
    (recordStatus rt wl u).trace (handle t) w = statusTrace rt t w.wl wl u := by
  simp only [recordStatus, Prog.trace_bind, trace_scaleTime, run_scaleTime, Prog.run_perform,
    Prog.trace_perform, Prog.trace_pure]
  rfl

@[simp] theorem run_observeMetrics : (observeMetrics rt wl).run (handle t) w =
    (readAnswer rt.toPlatform t.metrics, { w with wl := w.wl.editSpecs t.midEdits }) := rfl

@[simp] theorem trace_observeMetrics : (observeMetrics rt wl).trace (handle t) w =
    [⟨.httpGet wl.spec.metricsEndpoint, t.metrics⟩] := rfl

@[simp] theorem run_observeDeployment : (observeDeployment wl).run (handle t) w =
    ((deployAnswer t w.deployments wl.deployKey).map fun d => (d, d.count), w) := by
  simp only [observeDeployment, Prog.run_bind, Prog.run_perform, handle]
  cases deployAnswer t w.deployments wl.deployKey <;> rfl

@[simp] theorem trace_observeDeployment : (observeDeployment wl).trace (handle t) w =
    [⟨.getDeployment wl.deployKey, deployAnswer t w.deployments wl.deployKey⟩] := by
  simp only [observeDeployment, Prog.trace_bind, Prog.run_perform, Prog.trace_perform, handle]
  cases deployAnswer t w.deployments wl.deployKey <;> rfl

end Helpers

/-! ### The call -/

/-- `reconcile` does what its exit path says. -/
theorem reconcile_exits {w : World} {t : Tick} {x : Exit} (hx : Exits rt w t x) :
    (reconcile rt w.wl.key).run (handle t) w = (x.result, x.after rt w t) ∧
      (reconcile rt w.wl.key).trace (handle t) w = x.trace rt w t := by
  cases hx with
  | unreadable get =>
    simp only [reconcile, Prog.run_bind, Prog.trace_bind, Prog.run_perform, Prog.trace_perform,
      handle, get]
    exact ⟨rfl, rfl⟩
  | metricsUnavailable get fetch =>
    simp [reconcile, handle, get, fetch]
    exact ⟨⟨rfl, rfl⟩, rfl⟩
  | targetDeploymentNotFound get fetch read =>
    simp [reconcile, handle, get, fetch, read, Except.map]
    exact ⟨⟨rfl, rfl⟩, rfl⟩
  | holding get fetch read same =>
    unfold desiredOf at same
    simp [reconcile, handle, get, fetch, read, Except.map, makeAdjustmentIfNeeded, same]
    simp only [Exit.trace, Exit.after, Exit.stored, Exit.update?, deployTrace, adjustTrace,
      desiredOf, same, List.append_nil, List.cons_append]
    exact ⟨⟨rfl, rfl⟩, rfl⟩
  | scaleFailed get fetch read change update =>
    unfold desiredOf at change
    unfold submitted desiredOf at update
    simp [reconcile, handle, get, fetch, read, Except.map, makeAdjustmentIfNeeded, change, update]
    simp only [Exit.trace, Exit.update?, deployTrace, adjustTrace, List.append_assoc,
      List.cons_append]
    exact ⟨⟨rfl, rfl⟩, rfl⟩
  | scaled get fetch read change update =>
    unfold desiredOf at change
    unfold submitted desiredOf at update
    simp [reconcile, handle, get, fetch, read, Except.map, makeAdjustmentIfNeeded, change, update]
    simp only [Exit.trace, Exit.update?, deployTrace, adjustTrace, List.append_assoc,
      List.cons_append]
    exact ⟨⟨rfl, rfl⟩, rfl⟩

variable (w : World) (t : Tick)

/-- The exit path of the call made in `w` under `t`. -/
def callExit : Exit := exitOf rt (w.disturb t) t

theorem exits_callExit : Exits rt (w.disturb t) t (callExit rt w t) := exits_exitOf rt _ t

theorem callExit_eq {x : Exit} (hx : Exits rt (w.disturb t) t x) : callExit rt w t = x :=
  hx.exitOf_eq

@[simp] theorem call_start : (call rt w t).start = w.disturb t := rfl

@[simp] theorem call_tick : (call rt w t).tick = t := rfl

theorem call_result : (call rt w t).result = (callExit rt w t).result := by
  show ((reconcile rt (w.disturb t).wl.key).run (handle t) (w.disturb t)).1 = _
  rw [(reconcile_exits rt (exits_callExit rt w t)).1]

theorem call_after : (call rt w t).after = (callExit rt w t).after rt (w.disturb t) t := by
  show ((reconcile rt (w.disturb t).wl.key).run (handle t) (w.disturb t)).2 = _
  rw [(reconcile_exits rt (exits_callExit rt w t)).1]

theorem call_trace : (call rt w t).trace = (callExit rt w t).trace rt (w.disturb t) t :=
  (reconcile_exits rt (exits_callExit rt w t)).2

@[simp] theorem filterMap_event?_eventTrace (es : List Event) :
    (eventTrace es).filterMap Exchange.event? = es := by
  induction es with
  | nil => rfl
  | cons e es ih => exact congrArg (e :: ·) ih

@[simp] theorem filterMap_deployWrite?_eventTrace (es : List Event) :
    (eventTrace es).filterMap Exchange.deployWrite? = [] := by
  simp [eventTrace, List.filterMap_map, Function.comp_def, Exchange.deployWrite?]

@[simp] theorem filterMap_statusWrite?_eventTrace (es : List Event) :
    (eventTrace es).filterMap Exchange.statusWrite? = [] := by
  simp [eventTrace, List.filterMap_map, Function.comp_def, Exchange.statusWrite?]

/-- The Deployments a path submits. -/
def Exit.deployWrites (w : World) : Exit → List (Deployment × Option ApiError)
  | .scaleFailed metrics deploy err => [(submitted w metrics deploy, some err)]
  | .scaled metrics deploy _ => [(submitted w metrics deploy, none)]
  | _ => []

/-- The objects whose status a path submits. -/
def Exit.statusWrites (x : Exit) : List (WorkloadLifecycle × Option ApiError) :=
  match x.update? w with
  | none => []
  | some u => [(u.applyTo rt t.clock w.wl,
      statusAnswer t (w.wl.editSpecs t.midEdits) w.wl.resourceVersion)]

theorem filterMap_event?_trace (x : Exit) :
    (x.trace rt w t).filterMap Exchange.event? = x.events w := by
  cases x <;>
    simp [Exit.trace, Exit.update?, Exit.events, List.filterMap_cons, Exchange.event?, deployTrace,
      adjustTrace, statusTrace, midEvents, lateEvents, earlyEvents]

theorem filterMap_deployWrite?_trace (x : Exit) :
    (x.trace rt w t).filterMap Exchange.deployWrite? = x.deployWrites w := by
  cases x <;>
    simp [Exit.trace, Exit.update?, Exit.deployWrites, List.filterMap_cons, Exchange.deployWrite?,
      deployTrace, adjustTrace, statusTrace]

theorem filterMap_statusWrite?_trace (x : Exit) :
    (x.trace rt w t).filterMap Exchange.statusWrite? = x.statusWrites rt w t := by
  cases x <;>
    simp [Exit.trace, Exit.update?, Exit.statusWrites, List.filterMap_cons, Exchange.statusWrite?,
      deployTrace, adjustTrace, statusTrace]

theorem call_events : (call rt w t).events = (callExit rt w t).events (w.disturb t) := by
  rw [Call.events, call_trace, filterMap_event?_trace]

theorem call_deployWrites :
    (call rt w t).deployWrites = (callExit rt w t).deployWrites (w.disturb t) := by
  rw [Call.deployWrites, call_trace, filterMap_deployWrite?_trace]

theorem call_statusWrites :
    (call rt w t).statusWrites = (callExit rt w t).statusWrites rt (w.disturb t) t := by
  rw [Call.statusWrites, call_trace, filterMap_statusWrite?_trace]

end InfraDemo.Operator
