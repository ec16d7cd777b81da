import Mathlib.Data.Int.Notation
import Mathlib.Data.List.Basic
import Mathlib.Logic.Function.Basic
import Mathlib.Tactic.Common

/-!
# Types — the WorkloadLifecycle resource and the Deployment it scales

The Go structs of `api/v1alpha1` as far as the controller reads or writes them, the two parts of the
CRD schema (what a spec and a status must satisfy to be stored), the Deployment, and the documented
behaviour of `meta.SetStatusCondition`, which is not part of the repository.
-/

namespace InfraDemo.Operator

/-- A `metav1.Time`, in seconds as it is serialised. -/
abbrev Time := ℤ

/-- Namespace and name of an object. -/
structure ObjectKey where
  ns : String
  name : String
  deriving DecidableEq

/-- An error of an API call: is it NotFound, and its text. -/
structure ApiError where
  notFound : Bool
  text : String
  deriving DecidableEq

/-! ### WorkloadLifecycle -/

structure WorkloadLifecycleSpec where
  targetDeployment : String
  metricsEndpoint : String
  kvCacheThresholdPercent : Int32
  kvCacheScaleDownThresholdPercent : Int32
  minReplicas : Int32
  maxReplicas : Int32
  deriving DecidableEq

/-- The spec of `config/samples`. -/
def WorkloadLifecycleSpec.sample : WorkloadLifecycleSpec where
  targetDeployment := "mock-vllm"
  metricsEndpoint := "http://localhost:8080/metrics"
  kvCacheThresholdPercent := 80
  kvCacheScaleDownThresholdPercent := 25
  minReplicas := 1
  maxReplicas := 3

/-- `metav1.ConditionStatus`. -/
inductive ConditionStatus where
  | conditionTrue
  | conditionFalse
  | conditionUnknown
  deriving DecidableEq

/-- `metav1.Condition`; an unset `lastTransitionTime` is the zero time. -/
structure Condition where
  type : String
  status : ConditionStatus
  observedGeneration : ℕ
  lastTransitionTime : Option Time := none
  reason : String
  message : String
  deriving DecidableEq

structure WorkloadLifecycleStatus where
  conditions : List Condition := []
  observedKVCacheUsagePercent : Int32 := 0
  desiredReplicas : Int32 := 0
  lastScaleTime : Option Time := none
  lastTransitionReason : String := ""
  deriving DecidableEq

structure WorkloadLifecycle where
  key : ObjectKey
  generation : ℕ
  resourceVersion : ℕ
  spec : WorkloadLifecycleSpec
  status : WorkloadLifecycleStatus
  deriving DecidableEq

/-! ### The CRD schema -/

/-- The spec schema: `minLength` and the bounds of the integer fields.  The scale-down threshold has
no bound of its own and no relation to the scale-up threshold. -/
structure WorkloadLifecycleSpec.Admitted (s : WorkloadLifecycleSpec) : Prop where
  target : 1 ≤ s.targetDeployment.length
  threshold_ge : 0 ≤ s.kvCacheThresholdPercent
  threshold_le : s.kvCacheThresholdPercent ≤ 100
  min_ge : 1 ≤ s.minReplicas
  max_ge : 1 ≤ s.maxReplicas

theorem sample_admitted : WorkloadLifecycleSpec.sample.Admitted :=
  ⟨by decide, by decide, by decide, by decide, by decide⟩

/-- `^[A-Za-z]([A-Za-z0-9_,:]*[A-Za-z0-9_])?$` -/
def reasonPattern (s : String) : Bool :=
  match s.toList with
  | [] => false
  | c :: cs =>
    c.isAlpha && cs.all (fun d => d.isAlphanum || d == '_' || d == ',' || d == ':') &&
      cs.getLast?.all fun d => d.isAlphanum || d == '_'

/-- `[a-z0-9]([-a-z0-9]*[a-z0-9])?` -/
def labelPattern (cs : List Char) : Bool :=
  let edge := fun d : Char => d.isLower || d.isDigit
  cs.head?.any edge && cs.all (fun d => edge d || d == '-') && cs.getLast?.any edge

/-- `([A-Za-z0-9][-A-Za-z0-9_.]*)?[A-Za-z0-9]` -/
def namePattern (cs : List Char) : Bool :=
  cs.head?.any Char.isAlphanum &&
    cs.all (fun d => d.isAlphanum || d == '-' || d == '_' || d == '.') &&
    cs.getLast?.any Char.isAlphanum

/-- The pattern of a condition type: a name, optionally after a dotted prefix and a slash. -/
def typePattern (s : String) : Bool :=
  match s.toList.splitOn '/' with
  | [name] => namePattern name
  | [pre, name] => (pre.splitOn '.').all labelPattern && namePattern name
  | _ => false

/-- The schema of one condition. -/
structure Condition.Admitted (c : Condition) : Prop where
  type_ok : typePattern c.type ∧ c.type.length ≤ 316
  reason_ok : c.reason ≠ "" ∧ c.reason.length ≤ 1024 ∧ reasonPattern c.reason
  message_le : c.message.length ≤ 32768
  stamped : c.lastTransitionTime ≠ none

/-- The status schema; `omitempty` drops a zero `desiredReplicas`. -/
structure WorkloadLifecycleStatus.Admitted (s : WorkloadLifecycleStatus) : Prop where
  conditions : ∀ c ∈ s.conditions, c.Admitted
  types_nodup : (s.conditions.map Condition.type).Nodup
  usage_ge : 0 ≤ s.observedKVCacheUsagePercent
  usage_le : s.observedKVCacheUsagePercent ≤ 100
  desired : s.desiredReplicas ≠ 0 → 1 ≤ s.desiredReplicas

theorem admitted_empty : ({} : WorkloadLifecycleStatus).Admitted where
  conditions := by simp
  types_nodup := by simp
  usage_ge := by decide
  usage_le := by decide
  desired := by simp

/-! ### Conditions -/

/-- `c` as `meta.SetStatusCondition` stores it where it is new or changes status. -/
def Condition.stamp (now : Time) (c : Condition) : Condition :=
  { c with lastTransitionTime := c.lastTransitionTime <|> some now }

/-- `c` as `meta.SetStatusCondition` stores it in the place of `old`: all fields are `c`'s, except
that the transition time stays while the status does. -/
def Condition.replace (now : Time) (old c : Condition) : Condition :=
  if old.status = c.status then { c with lastTransitionTime := old.lastTransitionTime }
  else c.stamp now

/-- `meta.SetStatusCondition`, by its documentation: a condition of a new type is appended, the
existing condition of the type is updated in place, the rest stays. -/
structure ConditionSetter where
  set : Time → List Condition → Condition → List Condition
  set_new : ∀ {now : Time} {cs : List Condition} {c : Condition},
    (∀ d ∈ cs, d.type ≠ c.type) → set now cs c = cs ++ [c.stamp now]
  set_existing : ∀ {now : Time} {pre post : List Condition} {old c : Condition},
    (∀ d ∈ pre, d.type ≠ c.type) → old.type = c.type →
      set now (pre ++ old :: post) c = pre ++ old.replace now c :: post

/-- A function that behaves so. -/
def setStatusCondition (now : Time) : List Condition → Condition → List Condition
  | [], c => [c.stamp now]
  | old :: rest, c =>
    if old.type = c.type then old.replace now c :: rest else old :: setStatusCondition now rest c

theorem setStatusCondition_append (now : Time) {c : Condition} {pre : List Condition}
    (rest : List Condition) (h : ∀ d ∈ pre, d.type ≠ c.type) :
    setStatusCondition now (pre ++ rest) c = pre ++ setStatusCondition now rest c := by
  induction pre with
  | nil => rfl
  | cons d pre ih =>
    rw [List.cons_append, setStatusCondition, if_neg (h d (by simp)),
      ih fun e he => h e (by simp [he]), List.cons_append]

def ConditionSetter.standard : ConditionSetter where
  set := setStatusCondition
  set_new := fun {now cs c} h => by
    simpa [setStatusCondition] using setStatusCondition_append now [] h
  set_existing := fun {now pre post old c} h ho => by
    rw [setStatusCondition_append now _ h, setStatusCondition, if_pos ho]

/-- The first condition of a type, `meta.FindStatusCondition`. -/
def findCondition (type : String) (cs : List Condition) : Option Condition :=
  cs.find? fun c => c.type = type

/-! ### Deployments -/

/-- A Deployment: the replica count the controller reads and writes, and every other field as pairs
of a path and its serialised value. -/
structure Deployment where
  key : ObjectKey
  resourceVersion : ℕ
  replicas : Option Int32
  rest : List (String × String)
  deriving DecidableEq

/-- The replica count, nil read as 1. -/
def Deployment.count (d : Deployment) : Int32 := d.replicas.getD 1

/-- The API server's Deployments, each stored under its own key. -/
structure DeploymentStore where
  get : ObjectKey → Option Deployment
  keyed : ∀ k d, get k = some d → d.key = k

namespace DeploymentStore

def empty : DeploymentStore where
  get _ := none
  keyed := by rintro k d ⟨⟩

/-- Store `d` under its key. -/
def set (s : DeploymentStore) (d : Deployment) : DeploymentStore where
  get := Function.update s.get d.key (some d)
  keyed := by
    intro k e h
    by_cases hk : k = d.key
    · subst hk
      rw [Function.update_self, Option.some_inj] at h
      exact h ▸ rfl
    · rw [Function.update_of_ne hk] at h
      exact s.keyed k e h

/-- Remove the Deployment at a key. -/
def erase (s : DeploymentStore) (key : ObjectKey) : DeploymentStore where
  get := Function.update s.get key none
  keyed := by
    intro k e h
    by_cases hk : k = key
    · subst hk
      rw [Function.update_self] at h
      exact absurd h (by simp)
    · rw [Function.update_of_ne hk] at h
      exact s.keyed k e h

@[simp] theorem set_get_self (s : DeploymentStore) (d : Deployment) :
    (s.set d).get d.key = some d := Function.update_self ..

theorem set_get_of_ne (s : DeploymentStore) {d : Deployment} {k : ObjectKey} (h : k ≠ d.key) :
    (s.set d).get k = s.get k := Function.update_of_ne h ..

/-- The API server's answer to an Update: `none` (nothing is stored) for an unknown object, a
resourceVersion that is not the stored one or a negative replica count, else the new store. -/
def update (s : DeploymentStore) (d : Deployment) : Option DeploymentStore :=
  match s.get d.key with
  | none => none
  | some stored =>
    if d.resourceVersion ≠ stored.resourceVersion ∨ d.count < 0 then none
    else some (s.set { d with resourceVersion := stored.resourceVersion + 1 })

end DeploymentStore

end InfraDemo.Operator
