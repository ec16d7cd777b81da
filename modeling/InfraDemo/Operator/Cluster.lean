import InfraDemo.Lib.Run
import InfraDemo.Operator.Controller

/-!
# Cluster — the reconciler in its environment

A `World` is one stored WorkloadLifecycle and the API server's Deployments.  A `Tick` says what the
outside does around one call of `reconcile`: the writes of other clients since the last call, the
answers of the external calls, spec edits that land while the call runs.  `call` runs the program in
the world, `calls` lists the calls of a run.
-/

namespace InfraDemo.Operator

open InfraDemo.Go

/-! ### Worlds and ticks -/

structure World where
  wl : WorkloadLifecycle
  deployments : DeploymentStore

/-- A new WorkloadLifecycle, and its target with `replicas`. -/
def World.fresh (spec : WorkloadLifecycleSpec) (replicas : Option Int32) : World where
  wl :=
    { key := { ns := "default", name := "workloadlifecycle-sample" }
      generation := 1, resourceVersion := 1, spec, status := {} }
  deployments := DeploymentStore.empty.set
    { key := { ns := "default", name := spec.targetDeployment }
      resourceVersion := 1, replicas, rest := [] }

/-- A write of the spec; one that changes nothing is no write. -/
def WorkloadLifecycle.editSpec (wl : WorkloadLifecycle) (spec : WorkloadLifecycleSpec) :
    WorkloadLifecycle :=
  if spec = wl.spec then wl
  else { wl with
    spec, generation := wl.generation + 1, resourceVersion := wl.resourceVersion + 1 }

/-- Spec writes in order. -/
def WorkloadLifecycle.editSpecs (wl : WorkloadLifecycle) (specs : List WorkloadLifecycleSpec) :
    WorkloadLifecycle := specs.foldl WorkloadLifecycle.editSpec wl

/-- A write of another client to a Deployment. -/
inductive DeploymentWrite where
  | put (deploy : Deployment)
  | erase (key : ObjectKey)

def DeploymentStore.apply (s : DeploymentStore) : DeploymentWrite → DeploymentStore
  | .put deploy => s.set deploy
  | .erase key => s.erase key

/-- The outside of one call: spec edits and Deployment writes since the last call, then the answers
of the external calls (an absent error leaves the answer to the API server), spec edits that land
after the call has read its object, the text of the API server's own refusals, and the clock. -/
structure Tick where
  edits : List WorkloadLifecycleSpec := []
  writes : List DeploymentWrite := []
  getErr : Option ApiError := none
  metrics : HttpAnswer
  midEdits : List WorkloadLifecycleSpec := []
  deployErr : Option ApiError := none
  updateErr : Option ApiError := none
  statusErr : Option ApiError := none
  refusal : String := ""
  clock : Stamp → Time := fun _ => 0

/-- A quiet tick with a 200 response. -/
def Tick.serving (body : String) : Tick where
  metrics := .response 200 (.ok (lit body))

theorem readAnswer_half : readAnswer (Runtime.exact 0).toPlatform
    (Tick.serving "vllm_kv_cache_usage_perc 0.5").metrics = .ok { kvCacheUsagePercent := 50 } := by
  decide +kernel

theorem readAnswer_ninety : readAnswer (Runtime.exact 0).toPlatform
    (Tick.serving "vllm_kv_cache_usage_perc 0.9").metrics = .ok { kvCacheUsagePercent := 90 } := by
  decide +kernel

/-- The world a call starts in. -/
def World.disturb (w : World) (t : Tick) : World where
  wl := w.wl.editSpecs t.edits
  deployments := t.writes.foldl DeploymentStore.apply w.deployments

/-- The answer to a Deployment read. -/
def deployAnswer (t : Tick) (s : DeploymentStore) (key : ObjectKey) : Except ApiError Deployment :=
  match t.deployErr with
  | some err => .error err
  | none =>
    match s.get key with
    | none => .error { notFound := true, text := t.refusal }
    | some deploy => .ok deploy

/-- The answer to a Deployment write: an error, or the new store. -/
def updateAnswer (t : Tick) (s : DeploymentStore) (deploy : Deployment) :
    Except ApiError DeploymentStore :=
  match t.updateErr with
  | some err => .error err
  | none =>
    match s.update deploy with
    | none => .error { notFound := false, text := t.refusal }
    | some s' => .ok s'

/-- The answer to a status write from an object of version `rv`. -/
def statusAnswer (t : Tick) (stored : WorkloadLifecycle) (rv : ℕ) : Option ApiError :=
  match t.statusErr with
  | some err => some err
  | none =>
    if rv = stored.resourceVersion then none else some { notFound := false, text := t.refusal }

/-- The stored object after the write of `wl`'s status; an accepted write takes the status only. -/
def storeStatus (t : Tick) (stored wl : WorkloadLifecycle) : WorkloadLifecycle :=
  match statusAnswer t stored wl.resourceVersion with
  | some _ => stored
  | none => { stored with status := wl.status, resourceVersion := stored.resourceVersion + 1 }

/-- How the world answers each external call. -/
def handle (t : Tick) : Prog.Handler Op.Ans World
  | .getWorkload _, w =>
    (match t.getErr with
      | some err => .error err
      | none => .ok w.wl, w)
  | .httpGet _, w => (t.metrics, { w with wl := w.wl.editSpecs t.midEdits })
  | .getDeployment key, w => (deployAnswer t w.deployments key, w)
  | .updateDeployment deploy, w =>
    match updateAnswer t w.deployments deploy with
    | .error err => (some err, w)
    | .ok s => (none, { w with deployments := s })
  | .updateStatus wl, w =>
    (statusAnswer t w.wl wl.resourceVersion, { w with wl := storeStatus t w.wl wl })
  | .recordEvent _, w => ((), w)
  | .now stamp, w => (t.clock stamp, w)

/-! ### Calls and runs -/

/-- One call of `reconcile`: the world it starts in, its tick, its result, the world after it and its
external calls with their answers. -/
structure Call where
  start : World
  tick : Tick
  result : Result × Option ApiError
  after : World
  trace : List Exchange

variable (rt : Runtime)

/-- The call made in world `w` under tick `t`. -/
def call (w : World) (t : Tick) : Call where
  start := w.disturb t
  tick := t
  result := ((reconcile rt (w.disturb t).wl.key).run (handle t) (w.disturb t)).1
  after := ((reconcile rt (w.disturb t).wl.key).run (handle t) (w.disturb t)).2
  trace := (reconcile rt (w.disturb t).wl.key).trace (handle t) (w.disturb t)

/-- The world after a call. -/
def next (w : World) (t : Tick) : World := (call rt w t).after

/-- The calls of a run, oldest first. -/
def calls (w : World) (ts : List Tick) : List Call := Run.records (next rt) (call rt) w ts

/-- The calls of a run are calls under its ticks. -/
theorem mem_calls {w : World} {ts : List Tick} {c : Call} (h : c ∈ calls rt w ts) :
    ∃ v, ∃ t ∈ ts, c = call rt v t := by
  refine Run.forall_records (I := fun _ => True) (A := fun t => t ∈ ts)
    (P := fun c => ∃ v, ∃ t ∈ ts, c = call rt v t) ?_ trivial (fun _ h => h) c h
  exact fun v t ht _ => ⟨trivial, v, t, ht, rfl⟩

def Exchange.event? : Exchange → Option Event
  | ⟨.recordEvent event, _⟩ => some event
  | _ => none

def Exchange.deployWrite? : Exchange → Option (Deployment × Option ApiError)
  | ⟨.updateDeployment deploy, err⟩ => some (deploy, err)
  | _ => none

def Exchange.statusWrite? : Exchange → Option (WorkloadLifecycle × Option ApiError)
  | ⟨.updateStatus wl, err⟩ => some (wl, err)
  | _ => none

/-- The events a call emits, in order. -/
def Call.events (c : Call) : List Event := c.trace.filterMap Exchange.event?

/-- The Deployments a call submits, with the answers. -/
def Call.deployWrites (c : Call) : List (Deployment × Option ApiError) :=
  c.trace.filterMap Exchange.deployWrite?

/-- The objects whose status a call submits, with the answers. -/
def Call.statusWrites (c : Call) : List (WorkloadLifecycle × Option ApiError) :=
  c.trace.filterMap Exchange.statusWrite?

end InfraDemo.Operator
