import Mathlib.Data.Option.Basic
import InfraDemo.Go.Rfc3339
import InfraDemo.Lib.Schema
import InfraDemo.Operator.Types

/-!
# Crd — what the API server stores of a WorkloadLifecycle

The JSON that the tags of `workloadlifecycle_types.go` make of a spec and a status, the schema of
`config/crd/bases`, and the way back.  The server checks an object against the schema, drops the
fields the schema does not know, and sends the rest to whoever reads it.  A time that comes from the
clock loses its fraction of a second on the way.
-/

namespace InfraDemo.Operator

open Schema

/-! ### Times -/

/-- `metav1.Time` as text, and the `date-time` format of the schema.  The text has the second of a
time, for years of four digits. -/
structure TimeFormat where
  /-- in how many units a time is given -/
  perSecond : ℤ
  text : Time → String
  read : String → Option Time
  read_text : ∀ t, Go.FourDigitYear (t / perSecond) →
    read (text t) = some (t / perSecond * perSecond)

/-- RFC 3339, from nanoseconds. -/
def TimeFormat.rfc3339 : TimeFormat where
  perSecond := Go.nanosPerSecond
  text := Go.formatRfc3339
  read := Go.parseRfc3339
  read_text _ h := Go.parse_format h

/-- A time without its fraction of a second. -/
def TimeFormat.cut (tf : TimeFormat) (t : Time) : Time := t / tf.perSecond * tf.perSecond

/-- The time is after the zero second, which stands for no time, and before year 10000. -/
def TimeFormat.Keeps (tf : TimeFormat) (t : Time) : Prop :=
  Go.zeroSecond < t / tf.perSecond ∧ Go.FourDigitYear (t / tf.perSecond)

def Condition.mapTime (f : Time → Time) (c : Condition) : Condition :=
  { c with lastTransitionTime := c.lastTransitionTime.map f }

def WorkloadLifecycleStatus.mapTimes (f : Time → Time) (s : WorkloadLifecycleStatus) :
    WorkloadLifecycleStatus :=
  { s with conditions := s.conditions.map (Condition.mapTime f), lastScaleTime := s.lastScaleTime.map f }

/-- All times of the status are kept. -/
structure TimeFormat.KeepsAll (tf : TimeFormat) (s : WorkloadLifecycleStatus) : Prop where
  conditions : ∀ c ∈ s.conditions, ∀ t, c.lastTransitionTime = some t → tf.Keeps t
  scale : ∀ t, s.lastScaleTime = some t → tf.Keeps t

variable (tf : TimeFormat)

/-! ### The schema -/

def specSchema : Schema :=
  .object
    [("kvCacheScaleDownThresholdPercent", .integer none none),
      ("kvCacheThresholdPercent", .integer (some 0) (some 100)),
      ("maxReplicas", .integer (some 1) none),
      ("metricsEndpoint", .string fun _ => true),
      ("minReplicas", .integer (some 1) none),
      ("targetDeployment", .string fun s => 1 ≤ s.length)]
    ["kvCacheScaleDownThresholdPercent", "kvCacheThresholdPercent", "maxReplicas", "metricsEndpoint",
      "minReplicas", "targetDeployment"]

def dateTime : Schema := .string fun s => (tf.read s).isSome

def conditionSchema : Schema :=
  .object
    [("lastTransitionTime", dateTime tf),
      ("message", .string fun s => s.length ≤ 32768),
      ("observedGeneration", .integer (some 0) none),
      ("reason", .string fun s => 1 ≤ s.length && s.length ≤ 1024 && reasonPattern s),
      ("status", .string fun s => s ∈ ["True", "False", "Unknown"]),
      ("type", .string fun s => s.length ≤ 316 && typePattern s)]
    ["lastTransitionTime", "message", "reason", "status", "type"]

def statusSchema : Schema :=
  .object
    [("conditions", .array (conditionSchema tf) "type"),
      ("desiredReplicas", .integer (some 1) none),
      ("lastScaleTime", dateTime tf),
      ("lastTransitionReason", .string fun _ => true),
      ("observedKVCacheUsagePercent", .integer (some 0) (some 100))]
    []

/-- The schema of an object, without its metadata. -/
def workloadLifecycleSchema : Schema :=
  .object [("spec", specSchema), ("status", statusSchema tf)] ["spec"]

/-! ### Encoding -/

/-- The entry of a field with `omitempty`. -/
def omitEmpty (name : String) (empty : Bool) (v : Value) : String × Option Value :=
  (name, if empty then none else some v)

def specEntries (s : WorkloadLifecycleSpec) : List (String × Option Value) :=
  [("targetDeployment", some (.str s.targetDeployment)),
    ("metricsEndpoint", some (.str s.metricsEndpoint)),
    ("kvCacheThresholdPercent", some (.int s.kvCacheThresholdPercent.toInt)),
    ("kvCacheScaleDownThresholdPercent", some (.int s.kvCacheScaleDownThresholdPercent.toInt)),
    ("minReplicas", some (.int s.minReplicas.toInt)),
    ("maxReplicas", some (.int s.maxReplicas.toInt))]

def encodeSpec (s : WorkloadLifecycleSpec) : Value := .obj (present (specEntries s))

def ConditionStatus.text : ConditionStatus → String
  | .conditionTrue => "True"
  | .conditionFalse => "False"
  | .conditionUnknown => "Unknown"

/-- A `metav1.Time` field; the zero time is null. -/
def encodeTime : Option Time → Value
  | none => .null
  | some t => .str (tf.text t)

def conditionEntries (c : Condition) : List (String × Option Value) :=
  [("type", some (.str c.type)),
    ("status", some (.str c.status.text)),
    omitEmpty "observedGeneration" (c.observedGeneration = 0) (.int c.observedGeneration),
    ("lastTransitionTime", some (encodeTime tf c.lastTransitionTime)),
    ("reason", some (.str c.reason)),
    ("message", some (.str c.message))]

def encodeCondition (c : Condition) : Value := .obj (present (conditionEntries tf c))

def statusEntries (s : WorkloadLifecycleStatus) : List (String × Option Value) :=
  [omitEmpty "conditions" (s.conditions = []) (.arr (s.conditions.map (encodeCondition tf))),
    omitEmpty "observedKVCacheUsagePercent" (s.observedKVCacheUsagePercent = 0)
      (.int s.observedKVCacheUsagePercent.toInt),
    omitEmpty "desiredReplicas" (s.desiredReplicas = 0) (.int s.desiredReplicas.toInt),
    omitEmpty "lastScaleTime" (s.lastScaleTime = none) (encodeTime tf s.lastScaleTime),
    omitEmpty "lastTransitionReason" (s.lastTransitionReason = "") (.str s.lastTransitionReason)]

def encodeStatus (s : WorkloadLifecycleStatus) : Value := .obj (present (statusEntries tf s))

/-- `status` has `omitzero`. -/
def objectEntries (wl : WorkloadLifecycle) : List (String × Option Value) :=
  [("spec", some (encodeSpec wl.spec)),
    omitEmpty "status" (wl.status = {}) (encodeStatus tf wl.status)]

def encodeObject (wl : WorkloadLifecycle) : Value := .obj (present (objectEntries tf wl))

/-! ### Decoding: a missing field has the zero value -/

def readStr : Option Value → Option String
  | none => some ""
  | some (.str s) => some s
  | _ => none

def readInt32 : Option Value → Option Int32
  | none => some 0
  | some (.int n) => if -2147483648 ≤ n ∧ n < 2147483648 then some (Int32.ofInt n) else none
  | _ => none

/-- An int64 that is not negative. -/
def readGeneration : Option Value → Option ℕ
  | none => some 0
  | some (.int n) => if 0 ≤ n then some n.toNat else none
  | _ => none

def readTime : Option Value → Option (Option Time)
  | none | some .null => some none
  | some (.str s) => (tf.read s).map some
  | _ => none

def readConditionStatus (v : Option Value) : Option ConditionStatus :=
  match readStr v with
  | some "True" => some .conditionTrue
  | some "False" => some .conditionFalse
  | some "Unknown" => some .conditionUnknown
  | _ => none

def decodeSpec : Value → Option WorkloadLifecycleSpec
  | .obj fields => do
    let targetDeployment ← readStr (fields.lookup "targetDeployment")
    let metricsEndpoint ← readStr (fields.lookup "metricsEndpoint")
    let kvCacheThresholdPercent ← readInt32 (fields.lookup "kvCacheThresholdPercent")
    let kvCacheScaleDownThresholdPercent ←
      readInt32 (fields.lookup "kvCacheScaleDownThresholdPercent")
    let minReplicas ← readInt32 (fields.lookup "minReplicas")
    let maxReplicas ← readInt32 (fields.lookup "maxReplicas")
    some { targetDeployment, metricsEndpoint, kvCacheThresholdPercent,
           kvCacheScaleDownThresholdPercent, minReplicas, maxReplicas }
  | _ => none

def decodeCondition : Value → Option Condition
  | .obj fields => do
    let type ← readStr (fields.lookup "type")
    let status ← readConditionStatus (fields.lookup "status")
    let observedGeneration ← readGeneration (fields.lookup "observedGeneration")
    let lastTransitionTime ← readTime tf (fields.lookup "lastTransitionTime")
    let reason ← readStr (fields.lookup "reason")
    let message ← readStr (fields.lookup "message")
    some { type, status, observedGeneration, lastTransitionTime, reason, message }
  | _ => none

def readConditions : Option Value → Option (List Condition)
  | none => some []
  | some (.arr xs) => xs.mapM (decodeCondition tf)
  | _ => none

def decodeStatus : Value → Option WorkloadLifecycleStatus
  | .obj fields => do
    let conditions ← readConditions tf (fields.lookup "conditions")
    let observedKVCacheUsagePercent ← readInt32 (fields.lookup "observedKVCacheUsagePercent")
    let desiredReplicas ← readInt32 (fields.lookup "desiredReplicas")
    let lastScaleTime ← readTime tf (fields.lookup "lastScaleTime")
    let lastTransitionReason ← readStr (fields.lookup "lastTransitionReason")
    some { conditions, observedKVCacheUsagePercent, desiredReplicas, lastScaleTime,
           lastTransitionReason }
  | _ => none

def readSpec : Option Value → Option WorkloadLifecycleSpec
  | none => some ⟨"", "", 0, 0, 0, 0⟩
  | some v => decodeSpec v

def readStatus : Option Value → Option WorkloadLifecycleStatus
  | none => some {}
  | some v => decodeStatus tf v

def decodeObject : Value → Option (WorkloadLifecycleSpec × WorkloadLifecycleStatus)
  | .obj fields => do
    let spec ← readSpec (fields.lookup "spec")
    let status ← readStatus tf (fields.lookup "status")
    some (spec, status)
  | _ => none

variable {tf}

/-! ### Reading what was written -/

section Read

variable (x : Int32) (t : Option Time) (str : String) (n : ℕ)

theorem readInt32_int : readInt32 (some (.int x.toInt)) = some x := by
  have hlo : -2147483648 ≤ x.toInt := x.le_toInt
  have hhi : x.toInt < 2147483648 := x.toInt_lt
  rw [readInt32, if_pos ⟨hlo, hhi⟩, Int32.ofInt_toInt]

theorem readInt32_omit :
    readInt32 (if decide (x = 0) then none else some (.int x.toInt)) = some x := by
  by_cases h : x = 0
  · simp [h, readInt32]
  · simpa [h] using readInt32_int x

theorem readStr_omit : readStr (if decide (str = "") then none else some (.str str)) = some str := by
  by_cases h : str = ""
  · simp [h, readStr]
  · simp [h, readStr]

theorem readTime_encodeTime (h : ∀ u, t = some u → tf.Keeps u) :
    readTime tf (some (encodeTime tf t)) = some (t.map tf.cut) := by
  cases t with
  | none => rfl
  | some t => rw [encodeTime, readTime, tf.read_text t (h t rfl).2, Option.map_some, Option.map_some,
      TimeFormat.cut]

theorem readTime_omit (h : ∀ u, t = some u → tf.Keeps u) :
    readTime tf (if decide (t = none) then none else some (encodeTime tf t)) =
      some (t.map tf.cut) := by
  cases t with
  | none => rfl
  | some t => exact readTime_encodeTime (some t) h

theorem readGeneration_omit :
    readGeneration (if decide (n = 0) then none else some (.int n)) = some n := by
  by_cases h : n = 0
  · simp [h, readGeneration]
  · simp [h, readGeneration]

theorem readConditionStatus_text (status : ConditionStatus) :
    readConditionStatus (some (.str status.text)) = some status := by
  cases status <;> rfl

end Read

theorem specEntries_nodup (s : WorkloadLifecycleSpec) :
    ((specEntries s).map Prod.fst).Nodup := by
  show ["targetDeployment", "metricsEndpoint", "kvCacheThresholdPercent",
    "kvCacheScaleDownThresholdPercent", "minReplicas", "maxReplicas"].Nodup
  decide

theorem conditionEntries_nodup (c : Condition) : ((conditionEntries tf c).map Prod.fst).Nodup := by
  show ["type", "status", "observedGeneration", "lastTransitionTime", "reason", "message"].Nodup
  decide

theorem statusEntries_nodup (s : WorkloadLifecycleStatus) :
    ((statusEntries tf s).map Prod.fst).Nodup := by
  show ["conditions", "observedKVCacheUsagePercent", "desiredReplicas", "lastScaleTime",
    "lastTransitionReason"].Nodup
  decide

theorem decode_encodeSpec (s : WorkloadLifecycleSpec) : decodeSpec (encodeSpec s) = some s := by
  unfold decodeSpec encodeSpec
  simp only [lookup_present (specEntries_nodup s)]
  simp [specEntries, List.lookup_cons, readStr, readInt32_int]

theorem decode_encodeCondition {c : Condition}
    (h : ∀ t, c.lastTransitionTime = some t → tf.Keeps t) :
    decodeCondition tf (encodeCondition tf c) = some (c.mapTime tf.cut) := by
  have htype : ((conditionEntries tf c).lookup "type").join = some (.str c.type) := rfl
  have hstatus : ((conditionEntries tf c).lookup "status").join = some (.str c.status.text) := rfl
  have hgeneration : ((conditionEntries tf c).lookup "observedGeneration").join =
      if decide (c.observedGeneration = 0) then none else some (.int c.observedGeneration) := rfl
  have htime : ((conditionEntries tf c).lookup "lastTransitionTime").join =
      some (encodeTime tf c.lastTransitionTime) := rfl
  have hreason : ((conditionEntries tf c).lookup "reason").join = some (.str c.reason) := rfl
  have hmessage : ((conditionEntries tf c).lookup "message").join = some (.str c.message) := rfl
  unfold decodeCondition encodeCondition
  simp only [lookup_present (conditionEntries_nodup c), htype, hstatus, hgeneration, htime, hreason,
    hmessage, readConditionStatus_text, readGeneration_omit, readTime_encodeTime _ h, readStr,
    Option.bind_eq_bind, Option.bind_some, Condition.mapTime]

theorem decode_encodeConditions {cs : List Condition}
    (h : ∀ c ∈ cs, ∀ t, c.lastTransitionTime = some t → tf.Keeps t) :
    (cs.map (encodeCondition tf)).mapM (decodeCondition tf) =
      some (cs.map (Condition.mapTime tf.cut)) := by
  induction cs with
  | nil => rfl
  | cons c cs ih =>
    have hcs : ∀ c ∈ cs, ∀ t, c.lastTransitionTime = some t → tf.Keeps t :=
      fun d hd => h d (List.mem_cons_of_mem c hd)
    rw [List.map_cons, List.mapM_cons, decode_encodeCondition (h c List.mem_cons_self), ih hcs]
    rfl

theorem readConditions_omit {cs : List Condition}
    (h : ∀ c ∈ cs, ∀ t, c.lastTransitionTime = some t → tf.Keeps t) : readConditions tf
    (if decide (cs = []) then none else some (.arr (cs.map (encodeCondition tf)))) =
      some (cs.map (Condition.mapTime tf.cut)) := by
  by_cases hnil : cs = []
  · rw [hnil]
    rfl
  · rw [decide_eq_false hnil]
    exact decode_encodeConditions h

section StatusFields

variable (s : WorkloadLifecycleStatus)

theorem lookup_conditions : ((statusEntries tf s).lookup "conditions").join =
    if decide (s.conditions = []) then none
    else some (.arr (s.conditions.map (encodeCondition tf))) := rfl

theorem lookup_usage : ((statusEntries tf s).lookup "observedKVCacheUsagePercent").join =
    if decide (s.observedKVCacheUsagePercent = 0) then none
    else some (.int s.observedKVCacheUsagePercent.toInt) := rfl

theorem lookup_desired : ((statusEntries tf s).lookup "desiredReplicas").join =
    if decide (s.desiredReplicas = 0) then none else some (.int s.desiredReplicas.toInt) := rfl

theorem lookup_scaleTime : ((statusEntries tf s).lookup "lastScaleTime").join =
    if decide (s.lastScaleTime = none) then none else some (encodeTime tf s.lastScaleTime) := rfl

theorem lookup_reason : ((statusEntries tf s).lookup "lastTransitionReason").join =
    if decide (s.lastTransitionReason = "") then none else some (.str s.lastTransitionReason) := rfl

end StatusFields

theorem decode_encodeStatus {s : WorkloadLifecycleStatus} (h : tf.KeepsAll s) :
    decodeStatus tf (encodeStatus tf s) = some (s.mapTimes tf.cut) := by
  unfold decodeStatus encodeStatus
  simp only [lookup_present (statusEntries_nodup s), lookup_conditions, lookup_usage, lookup_desired,
    lookup_scaleTime, lookup_reason, readConditions_omit h.conditions, readInt32_omit,
    readTime_omit _ h.scale, readStr_omit, Option.bind_eq_bind, Option.bind_some,
    WorkloadLifecycleStatus.mapTimes]

/-! ### What the schema admits -/

theorem all_omit {empty : Bool} {v : Value} {f : Value → Bool} :
    (if empty then none else some v).all f = true ↔ (empty = false → f v = true) := by
  cases empty <;> simp

theorem zero_le_toInt {x : Int32} : 0 ≤ x.toInt ↔ 0 ≤ x :=
  (Int32.le_iff_toInt_le : (0 : Int32) ≤ x ↔ _).symm

theorem one_le_toInt {x : Int32} : 1 ≤ x.toInt ↔ 1 ≤ x :=
  (Int32.le_iff_toInt_le : (1 : Int32) ≤ x ↔ _).symm

theorem toInt_le_hundred {x : Int32} : x.toInt ≤ 100 ↔ x ≤ 100 :=
  (Int32.le_iff_toInt_le : x ≤ (100 : Int32) ↔ _).symm

variable (tf) in
/-- A time is valid where it is set. -/
theorem validate_encodeTime {t : Option Time} (h : ∀ u, t = some u → tf.Keeps u) :
    (dateTime tf).validate (encodeTime tf t) = true ↔ t ≠ none := by
  cases t with
  | none => simp [encodeTime, dateTime, validate]
  | some t => simp [encodeTime, dateTime, validate, tf.read_text t (h t rfl).2]

theorem validate_encodeSpec (s : WorkloadLifecycleSpec) :
    specSchema.validate (encodeSpec s) = true ↔ s.Admitted := by
  have hfields : specSchema.validate (encodeSpec s) = true ↔
      (0 ≤ s.kvCacheThresholdPercent.toInt ∧ s.kvCacheThresholdPercent.toInt ≤ 100) ∧
        1 ≤ s.maxReplicas.toInt ∧ 1 ≤ s.minReplicas.toInt ∧ 1 ≤ s.targetDeployment.length := by
    unfold specSchema encodeSpec
    rw [validate_present (specEntries_nodup s)]
    simp [specEntries, List.lookup_cons, validate]
  rw [hfields, zero_le_toInt, toInt_le_hundred, one_le_toInt, one_le_toInt]
  constructor
  · rintro ⟨⟨hge, hle⟩, hmax, hmin, htarget⟩
    exact ⟨htarget, hge, hle, hmin, hmax⟩
  · intro h
    exact ⟨⟨h.threshold_ge, h.threshold_le⟩, h.max_ge, h.min_ge, h.target⟩

theorem validate_encodeCondition {c : Condition}
    (h : ∀ t, c.lastTransitionTime = some t → tf.Keeps t) :
    (conditionSchema tf).validate (encodeCondition tf c) = true ↔ c.Admitted := by
  have hgeneration : Option.all (fun v => (integer (some 0) none).validate v)
      (if c.observedGeneration = 0 then none else some (.int c.observedGeneration)) = true := by
    split_ifs
    · rfl
    · simp [validate]
  have hstatus : c.status.text = "True" ∨ c.status.text = "False" ∨ c.status.text = "Unknown" := by
    cases c.status <;> simp [ConditionStatus.text]
  have hreason : 1 ≤ c.reason.length ↔ c.reason ≠ "" := by
    rw [Nat.one_le_iff_ne_zero, Ne, String.length_eq_zero_iff]
  have hfields : (conditionSchema tf).validate (encodeCondition tf c) = true ↔
      c.lastTransitionTime ≠ none ∧ c.message.length ≤ 32768 ∧
        ((c.reason ≠ "" ∧ c.reason.length ≤ 1024) ∧ reasonPattern c.reason = true) ∧
          c.type.length ≤ 316 ∧ typePattern c.type = true := by
    unfold conditionSchema encodeCondition
    rw [validate_present (conditionEntries_nodup c), ← hreason, ← validate_encodeTime tf h]
    simp [conditionEntries, omitEmpty, List.lookup_cons, validate, hgeneration, hstatus]
  rw [hfields]
  constructor
  · rintro ⟨htime, hmessage, ⟨⟨hne, hlen⟩, hpattern⟩, htype, htypePattern⟩
    exact ⟨⟨htypePattern, htype⟩, ⟨hne, hlen, hpattern⟩, hmessage, htime⟩
  · intro h
    exact ⟨h.stamped, h.message_le, ⟨⟨h.reason_ok.1, h.reason_ok.2.1⟩, h.reason_ok.2.2⟩,
      h.type_ok.2, h.type_ok.1⟩

/-- The list of conditions is a map by type. -/
theorem validate_encodeConditions {cs : List Condition}
    (h : ∀ c ∈ cs, ∀ t, c.lastTransitionTime = some t → tf.Keeps t) :
    (array (conditionSchema tf) "type").validate (.arr (cs.map (encodeCondition tf))) = true ↔
      (∀ c ∈ cs, c.Admitted) ∧ (cs.map Condition.type).Nodup := by
  have hkey : ∀ c : Condition, Value.text? "type" (encodeCondition tf c) = some c.type := by
    intro c
    have htype : ((conditionEntries tf c).lookup "type").join = some (.str c.type) := rfl
    rw [encodeCondition, Value.text?, lookup_present (conditionEntries_nodup c), htype]
  have hkeys : (cs.map (encodeCondition tf)).map (Value.text? "type") =
      (cs.map Condition.type).map some := by
    rw [List.map_map, List.map_map]
    exact List.map_congr_left fun c _ => hkey c
  rw [validate, Bool.and_eq_true, List.all_eq_true, decide_eq_true_iff, hkeys,
    List.nodup_map_iff (Option.some_injective String)]
  rw [List.forall_mem_map]
  exact and_congr_left' (forall₂_congr fun c hc => validate_encodeCondition (h c hc))

theorem validate_encodeStatus {s : WorkloadLifecycleStatus} (h : tf.KeepsAll s) :
    (statusSchema tf).validate (encodeStatus tf s) = true ↔ s.Admitted := by
  have hfields : (statusSchema tf).validate (encodeStatus tf s) = true ↔
      (s.conditions ≠ [] → (∀ c ∈ s.conditions, c.Admitted) ∧
        (s.conditions.map Condition.type).Nodup) ∧
      (s.desiredReplicas ≠ 0 → 1 ≤ s.desiredReplicas) ∧
      (s.observedKVCacheUsagePercent ≠ 0 →
        0 ≤ s.observedKVCacheUsagePercent ∧ s.observedKVCacheUsagePercent ≤ 100) := by
    unfold statusSchema encodeStatus
    rw [validate_present (statusEntries_nodup s)]
    simp only [List.forall_mem_cons, lookup_conditions, lookup_usage, lookup_desired,
      lookup_scaleTime, lookup_reason, all_omit, decide_eq_false_iff_not,
      validate_encodeConditions h.conditions, validate_encodeTime tf h.scale]
    simp [validate, zero_le_toInt, one_le_toInt, toInt_le_hundred]
  rw [hfields]
  constructor
  · rintro ⟨hconditions, hdesired, husage⟩
    -- what is left out has the zero value, which the schema admits
    have hall : (∀ c ∈ s.conditions, c.Admitted) ∧ (s.conditions.map Condition.type).Nodup := by
      by_cases hnil : s.conditions = []
      · rw [hnil]
        exact ⟨fun _ hc => absurd hc List.not_mem_nil, List.nodup_nil⟩
      · exact hconditions hnil
    have hrange : 0 ≤ s.observedKVCacheUsagePercent ∧ s.observedKVCacheUsagePercent ≤ 100 := by
      by_cases hzero : s.observedKVCacheUsagePercent = 0
      · rw [hzero]
        decide
      · exact husage hzero
    exact ⟨hall.1, hall.2, hrange.1, hrange.2, hdesired⟩
  · intro h
    exact ⟨fun _ => ⟨h.conditions, h.types_nodup⟩, h.desired, fun _ => ⟨h.usage_ge, h.usage_le⟩⟩

/-! ### What the server drops -/

theorem prune_integer (lo hi : Option ℤ) (v : Value) : (integer lo hi).prune v = v := by
  cases v <;> rfl

theorem prune_string (accept : String → Bool) (v : Value) : (string accept).prune v = v := by
  cases v <;> rfl

theorem prune_encodeSpec (s : WorkloadLifecycleSpec) :
    specSchema.prune (encodeSpec s) = encodeSpec s := by
  refine prune_present fun name v hmem => ?_
  simp only [specEntries, List.mem_cons, List.not_mem_nil, or_false, Prod.mk.injEq] at hmem
  rcases hmem with ⟨rfl, -⟩ | ⟨rfl, -⟩ | ⟨rfl, -⟩ | ⟨rfl, -⟩ | ⟨rfl, -⟩ | ⟨rfl, -⟩
  · exact ⟨_, rfl, prune_string _ v⟩
  · exact ⟨_, rfl, prune_string _ v⟩
  · exact ⟨_, rfl, prune_integer _ _ v⟩
  · exact ⟨_, rfl, prune_integer _ _ v⟩
  · exact ⟨_, rfl, prune_integer _ _ v⟩
  · exact ⟨_, rfl, prune_integer _ _ v⟩

theorem prune_encodeCondition (c : Condition) :
    (conditionSchema tf).prune (encodeCondition tf c) = encodeCondition tf c := by
  refine prune_present fun name v hmem => ?_
  simp only [conditionEntries, omitEmpty, List.mem_cons, List.not_mem_nil, or_false,
    Prod.mk.injEq] at hmem
  rcases hmem with ⟨rfl, -⟩ | ⟨rfl, -⟩ | ⟨rfl, -⟩ | ⟨rfl, -⟩ | ⟨rfl, -⟩ | ⟨rfl, -⟩
  · exact ⟨_, rfl, prune_string _ v⟩
  · exact ⟨_, rfl, prune_string _ v⟩
  · exact ⟨_, rfl, prune_integer _ _ v⟩
  · exact ⟨_, rfl, prune_string _ v⟩
  · exact ⟨_, rfl, prune_string _ v⟩
  · exact ⟨_, rfl, prune_string _ v⟩

theorem prune_encodeStatus (s : WorkloadLifecycleStatus) :
    (statusSchema tf).prune (encodeStatus tf s) = encodeStatus tf s := by
  refine prune_present fun name v hmem => ?_
  simp only [statusEntries, omitEmpty, List.mem_cons, List.not_mem_nil, or_false,
    Prod.mk.injEq] at hmem
  rcases hmem with ⟨rfl, hv⟩ | ⟨rfl, -⟩ | ⟨rfl, -⟩ | ⟨rfl, -⟩ | ⟨rfl, -⟩
  · refine ⟨_, rfl, ?_⟩
    by_cases hnil : s.conditions = []
    · simp [hnil] at hv
    · rw [decide_eq_false hnil, if_neg Bool.false_ne_true, Option.some_inj] at hv
      rw [hv, prune, List.map_map]
      exact congrArg Value.arr (List.map_congr_left fun c _ => prune_encodeCondition c)
  · exact ⟨_, rfl, prune_integer _ _ v⟩
  · exact ⟨_, rfl, prune_integer _ _ v⟩
  · exact ⟨_, rfl, prune_string _ v⟩
  · exact ⟨_, rfl, prune_string _ v⟩

/-! ### Objects -/

theorem objectEntries_nodup (wl : WorkloadLifecycle) :
    ((objectEntries tf wl).map Prod.fst).Nodup := by
  show ["spec", "status"].Nodup
  decide

variable (tf) in
/-- **The server and the types agree**: it accepts an object exactly if its spec and its status are
admitted, it drops nothing of it, and whoever reads it gets the spec and the status that were
written, with the times cut to their seconds. -/
theorem stored_object {wl : WorkloadLifecycle} (h : tf.KeepsAll wl.status) :
    ((workloadLifecycleSchema tf).validate (encodeObject tf wl) = true ↔
        wl.spec.Admitted ∧ wl.status.Admitted) ∧
      (workloadLifecycleSchema tf).prune (encodeObject tf wl) = encodeObject tf wl ∧
      decodeObject tf (encodeObject tf wl) = some (wl.spec, wl.status.mapTimes tf.cut) := by
  have hspec : ((objectEntries tf wl).lookup "spec").join = some (encodeSpec wl.spec) := rfl
  have hstatus : ((objectEntries tf wl).lookup "status").join =
      if decide (wl.status = {}) then none else some (encodeStatus tf wl.status) := rfl
  refine ⟨?_, ?_, ?_⟩
  · unfold workloadLifecycleSchema encodeObject
    rw [validate_present (objectEntries_nodup wl)]
    have hzero : (wl.status ≠ {} → wl.status.Admitted) ↔ wl.status.Admitted := by
      refine ⟨fun h => ?_, fun h _ => h⟩
      by_cases hnil : wl.status = {}
      · rw [hnil]
        exact admitted_empty
      · exact h hnil
    simp only [List.forall_mem_cons, hspec, hstatus, all_omit, decide_eq_false_iff_not,
      validate_encodeStatus h, Option.all_some, validate_encodeSpec]
    simpa using fun _ => hzero
  · refine prune_present fun name v hmem => ?_
    simp only [objectEntries, omitEmpty, List.mem_cons, List.not_mem_nil, or_false,
      Prod.mk.injEq, Option.some_inj] at hmem
    rcases hmem with ⟨rfl, rfl⟩ | ⟨rfl, hv⟩
    · exact ⟨_, rfl, prune_encodeSpec wl.spec⟩
    · refine ⟨_, rfl, ?_⟩
      split_ifs at hv
      rw [Option.some_inj.mp hv]
      exact prune_encodeStatus wl.status
  · unfold decodeObject encodeObject
    have hread : readStatus tf (if decide (wl.status = {}) then none
        else some (encodeStatus tf wl.status)) = some (wl.status.mapTimes tf.cut) := by
      by_cases hnil : wl.status = {}
      · rw [hnil]
        rfl
      · rw [decide_eq_false hnil]
        exact decode_encodeStatus h
    simp only [lookup_present (objectEntries_nodup wl), hspec, hstatus, hread, readSpec,
      decode_encodeSpec, Option.bind_eq_bind, Option.bind_some]

/-- The last quarter of a second of 29 February 2024, in nanoseconds. -/
def leapDay : Time := 1709251199750000000

def scaledObject : WorkloadLifecycle where
  key := ⟨"default", "wl"⟩
  generation := 1
  resourceVersion := 7
  spec := .sample
  status :=
    { conditions := [⟨"Available", .conditionTrue, 1, some leapDay, "ScaledUp", ""⟩]
      observedKVCacheUsagePercent := 85
      desiredReplicas := 2
      lastScaleTime := some leapDay
      lastTransitionReason := "ScaledUp" }

example : Go.formatRfc3339 leapDay = "2024-02-29T23:59:59Z" := by decide +kernel

theorem keeps_leapDay : TimeFormat.rfc3339.Keeps leapDay := by
  unfold TimeFormat.Keeps Go.FourDigitYear
  decide +kernel

theorem stored_object_scaled :
    ((workloadLifecycleSchema .rfc3339).validate (encodeObject .rfc3339 scaledObject) = true ↔
        scaledObject.spec.Admitted ∧ scaledObject.status.Admitted) ∧
      (workloadLifecycleSchema .rfc3339).prune (encodeObject .rfc3339 scaledObject) =
        encodeObject .rfc3339 scaledObject ∧
      decodeObject .rfc3339 (encodeObject .rfc3339 scaledObject) =
        some (scaledObject.spec,
          scaledObject.status.mapTimes fun _ => (1709251199000000000 : ℤ)) := by
  have hkeeps : TimeFormat.rfc3339.KeepsAll scaledObject.status := by
    refine ⟨fun c hc t ht => ?_, fun t ht => ?_⟩
    · obtain rfl := List.mem_singleton.mp hc
      exact Option.some_inj.mp ht ▸ keeps_leapDay
    · exact Option.some_inj.mp ht ▸ keeps_leapDay
  exact stored_object .rfc3339 hkeeps

end InfraDemo.Operator
