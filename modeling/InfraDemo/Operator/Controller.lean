import InfraDemo.Lib.Prog
import InfraDemo.Operator.Metrics
import InfraDemo.Operator.Scaling

/-!
# Controller — the reconciler

`reconcile` and its helpers as programs over the external calls they make: reads and writes of the
API server, the HTTP request, the event recorder and the clock.  Log lines are left out.  Each
helper stands under its name in `workloadlifecycle_controller.go` and makes its calls in the order
of the source.
-/

namespace InfraDemo.Operator

open InfraDemo.Go

/-! ### Reasons -/

def reasonMetricsUnavailable : String := "MetricsUnavailable"

def reasonTargetDeploymentNotFound : String := "TargetDeploymentNotFound"

def reasonRecovered : String := "Recovered"

def reasonScaledUp : String := "ScaledUp"

def reasonScaledDown : String := "ScaledDown"

def reasonScaleFailed : String := "ScaleFailed"

def reasonHolding : String := "Holding"

/-! ### External calls -/

inductive EventType where
  | normal
  | warning
  deriving DecidableEq

/-- An event of the recorder, with the object it is about. -/
structure Event where
  regarding : ObjectKey
  type : EventType
  reason : String
  message : String
  deriving DecidableEq

/-- What a reading of the clock is for. -/
inductive Stamp where
  | lastScaleTime
  | available
  | degraded
  deriving DecidableEq

/-- The external calls. -/
inductive Op where
  | getWorkload (key : ObjectKey)
  | httpGet (endpoint : String)
  | getDeployment (key : ObjectKey)
  | updateDeployment (deploy : Deployment)
  | updateStatus (wl : WorkloadLifecycle)
  | recordEvent (event : Event)
  | now (stamp : Stamp)

/-- Their answers; `none` is Go's nil error. -/
@[reducible] def Op.Ans : Op → Type
  | .getWorkload _ => Except ApiError WorkloadLifecycle
  | .httpGet _ => HttpAnswer
  | .getDeployment _ => Except ApiError Deployment
  | .updateDeployment _ => Option ApiError
  | .updateStatus _ => Option ApiError
  | .recordEvent _ => Unit
  | .now _ => Time

/-- Programs of the controller. -/
abbrev Action (α : Type) := Prog Op.Ans α

/-- An external call with its answer. -/
abbrev Exchange := Prog.Exchange Op.Ans

abbrev getWorkload (key : ObjectKey) : Action (Except ApiError WorkloadLifecycle) :=
  Prog.perform (Op.getWorkload key)

abbrev httpGet (endpoint : String) : Action HttpAnswer := Prog.perform (Op.httpGet endpoint)

abbrev getDeployment (key : ObjectKey) : Action (Except ApiError Deployment) :=
  Prog.perform (Op.getDeployment key)

abbrev updateDeployment (deploy : Deployment) : Action (Option ApiError) :=
  Prog.perform (Op.updateDeployment deploy)

abbrev updateStatus (wl : WorkloadLifecycle) : Action (Option ApiError) :=
  Prog.perform (Op.updateStatus wl)

abbrev recordEvent (event : Event) : Action Unit := Prog.perform (Op.recordEvent event)

abbrev now (stamp : Stamp) : Action Time := Prog.perform (Op.now stamp)

/-- `if cond { Recorder.Event(..) }` -/
def recordEventIf (cond : Prop) [Decidable cond] (event : Event) : Action Unit :=
  if cond then recordEvent event else pure ()

/-- What the reconciler is linked with: the Go platform and `meta.SetStatusCondition`. -/
structure Runtime extends Platform where
  conditions : ConditionSetter

/-- A runtime with exact float arithmetic. -/
def Runtime.exact (outOfRange : Float64 → Int32) : Runtime where
  unit := .exact
  outOfRange
  printable _ := true
  conditions := .standard

/-- `ctrl.Result`, in seconds. -/
structure Result where
  requeueAfter : ℕ := 0
  deriving DecidableEq

/-- `client.IgnoreNotFound`. -/
def ignoreNotFound (err : ApiError) : Option ApiError := if err.notFound then none else some err

/-! ### Status -/

/-- One reconcile's status write; absent optional fields are left as they are. -/
structure StatusUpdate where
  reason : String
  available : ConditionStatus
  degraded : ConditionStatus
  message : String := ""
  observedKVCacheUsagePercent : Option Int32 := none
  desiredReplicas : Option Int32 := none
  scaledNow : Bool := false
  deriving DecidableEq

/-- The condition of a type that a status update sets. -/
def StatusUpdate.condition (u : StatusUpdate) (generation : ℕ) (type : String)
    (status : ConditionStatus) : Condition :=
  { type, status, observedGeneration := generation, reason := u.reason, message := u.message }

def availableType : String := "Available"

def degradedType : String := "Degraded"

/-- `LastScaleTime` of the status a status update leaves. -/
def scaleTime (wl : WorkloadLifecycle) (u : StatusUpdate) : Action (Option Time) :=
  if u.scaledNow then do
    let t ← now .lastScaleTime
    pure (some t)
  else pure wl.status.lastScaleTime

variable (rt : Runtime)

def recordStatus (wl : WorkloadLifecycle) (u : StatusUpdate) : Action Unit := do
  let usage := u.observedKVCacheUsagePercent.getD wl.status.observedKVCacheUsagePercent
  let desired := u.desiredReplicas.getD wl.status.desiredReplicas
  let lastScaleTime ← scaleTime wl u
  let availableNow ← now .available
  let conditions := rt.conditions.set availableNow wl.status.conditions
    (u.condition wl.generation availableType u.available)
  let degradedNow ← now .degraded
  let conditions := rt.conditions.set degradedNow conditions
    (u.condition wl.generation degradedType u.degraded)
  -- the error of the write is only logged
  let _ ← updateStatus { wl with
    status :=
      { conditions
        observedKVCacheUsagePercent := usage
        desiredReplicas := desired
        lastScaleTime
        lastTransitionReason := u.reason } }
  pure ()

/-! ### Observation -/

def observeMetrics (wl : WorkloadLifecycle) : Action (Except String Metrics) := do
  let answer ← httpGet wl.spec.metricsEndpoint
  pure (readAnswer rt.toPlatform answer)

/-- The key of the target Deployment. -/
def WorkloadLifecycle.deployKey (wl : WorkloadLifecycle) : ObjectKey :=
  { ns := wl.key.ns, name := wl.spec.targetDeployment }

def observeDeployment (wl : WorkloadLifecycle) : Action (Except ApiError (Deployment × Int32)) := do
  match ← getDeployment wl.deployKey with
  | .error err => pure (.error err)
  | .ok deploy => pure (.ok (deploy, deploy.count))

/-! ### Events -/

def warning (wl : WorkloadLifecycle) (reason message : String) : Event :=
  { regarding := wl.key, type := .warning, reason, message }

def recovered (wl : WorkloadLifecycle) (priorReason : String) : Event :=
  { regarding := wl.key, type := .normal, reason := reasonRecovered
    message := "recovered from " ++ priorReason }

/-- The event of an accepted change of the replica count. -/
def scaledEvent (wl : WorkloadLifecycle) (reason : String)
    (currentReplicas desiredReplicas kvCacheUsagePercent appliedThreshold : Int32) : Event :=
  { regarding := wl.key, type := .normal, reason
    message := "Scaled " ++ wl.spec.targetDeployment ++ " from " ++ toString currentReplicas.toInt ++
      " to " ++ toString desiredReplicas.toInt ++ " replicas (KV cache " ++
      toString kvCacheUsagePercent.toInt ++ "% vs threshold " ++ toString appliedThreshold.toInt ++
      "%)" }

/-! ### Reconcile -/

/-- The reason of a change from `currentReplicas` to `desiredReplicas`. -/
def scaleReason (currentReplicas desiredReplicas : Int32) : String :=
  if desiredReplicas < currentReplicas then reasonScaledDown else reasonScaledUp

def makeAdjustmentIfNeeded (wl : WorkloadLifecycle) (deploy : Deployment)
    (currentReplicas desiredReplicas kvCacheUsagePercent thresholdPercent : Int32) :
    Action (Option ApiError) := do
  let priorReason := wl.status.lastTransitionReason
  if desiredReplicas = currentReplicas then
    recordStatus rt wl
      { reason := reasonHolding, available := .conditionTrue, degraded := .conditionFalse
        observedKVCacheUsagePercent := kvCacheUsagePercent, desiredReplicas := desiredReplicas }
    pure none
  else
    let reason := scaleReason currentReplicas desiredReplicas
    match ← updateDeployment { deploy with replicas := desiredReplicas } with
    | some err =>
      recordEventIf (priorReason ≠ reasonScaleFailed) (warning wl reasonScaleFailed err.text)
      recordStatus rt wl
        { reason := reasonScaleFailed, available := .conditionTrue, degraded := .conditionTrue
          message := err.text, observedKVCacheUsagePercent := kvCacheUsagePercent
          desiredReplicas := desiredReplicas }
      pure (some err)
    | none =>
      let appliedThreshold :=
        if reason = reasonScaledDown then wl.spec.kvCacheScaleDownThresholdPercent
        else thresholdPercent
      recordEvent (scaledEvent wl reason currentReplicas desiredReplicas kvCacheUsagePercent
        appliedThreshold)
      recordStatus rt wl
        { reason, available := .conditionTrue, degraded := .conditionFalse
          observedKVCacheUsagePercent := kvCacheUsagePercent, desiredReplicas := desiredReplicas
          scaledNow := true }
      pure none

def reconcile (req : ObjectKey) : Action (Result × Option ApiError) := do
  match ← getWorkload req with
  | .error err => pure ({}, ignoreNotFound err)
  | .ok wl =>
    let priorReason := wl.status.lastTransitionReason
    match ← observeMetrics rt wl with
    | .error err =>
      recordEventIf (priorReason ≠ reasonMetricsUnavailable)
        (warning wl reasonMetricsUnavailable err)
      recordStatus rt wl
        { reason := reasonMetricsUnavailable, available := .conditionFalse
          degraded := .conditionTrue, message := err }
      pure ({ requeueAfter := 15 }, none)
    | .ok metrics =>
      recordEventIf (priorReason = reasonMetricsUnavailable) (recovered wl priorReason)
      match ← observeDeployment wl with
      | .error err =>
        recordEventIf (priorReason ≠ reasonTargetDeploymentNotFound)
          (warning wl reasonTargetDeploymentNotFound err.text)
        recordStatus rt wl
          { reason := reasonTargetDeploymentNotFound, available := .conditionFalse
            degraded := .conditionTrue, message := err.text
            observedKVCacheUsagePercent := metrics.kvCacheUsagePercent }
        pure ({ requeueAfter := 15 }, none)
      | .ok (deploy, currentReplicas) =>
        recordEventIf (priorReason = reasonTargetDeploymentNotFound) (recovered wl priorReason)
        let desiredReplicas :=
          computeDesiredReplicas currentReplicas metrics.kvCacheUsagePercent wl.spec
        let err ← makeAdjustmentIfNeeded rt wl deploy currentReplicas desiredReplicas
          metrics.kvCacheUsagePercent wl.spec.kvCacheThresholdPercent
        pure ({ requeueAfter := 15 }, err)

end InfraDemo.Operator
