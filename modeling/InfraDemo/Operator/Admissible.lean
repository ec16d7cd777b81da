import InfraDemo.Operator.Conditions
import InfraDemo.Operator.Events
import InfraDemo.Operator.Step

/-!
# Admissible — which submitted statuses the schema admits

A submitted status is the stored one with the two conditions, the usage, the count and the reason of
the call.  From an admitted stored status it is admitted when the message is short enough, the usage
is a percentage and the count is no negative one (`applyTo_admitted_iff`).  `Submittable` says the
same of what the call is given: the texts of the errors, the last KV-cache sample, the count.
-/

namespace InfraDemo.Operator

open InfraDemo.Go InfraDemo.Hysteresis

variable {rt : Runtime}

/-! ### The submitted status -/

/-- `maxLength` of a condition message. -/
def maxMessage : ℕ := 32768

theorem stamp_admitted (now : Time) {c : Condition}
    (htype : typePattern c.type ∧ c.type.length ≤ 316)
    (hreason : c.reason ≠ "" ∧ c.reason.length ≤ 1024 ∧ reasonPattern c.reason)
    (hmessage : c.message.length ≤ maxMessage) : (c.stamp now).Admitted where
  type_ok := htype
  reason_ok := hreason
  message_le := hmessage
  stamped := by
    show (c.lastTransitionTime <|> some now) ≠ none
    cases c.lastTransitionTime <;> simp

/-- The setter keeps the conditions admitted. -/
theorem set_admitted {now : Time} {cs : List Condition} {c : Condition}
    (hcs : ∀ d ∈ cs, d.Admitted) (htype : typePattern c.type ∧ c.type.length ≤ 316)
    (hreason : c.reason ≠ "" ∧ c.reason.length ≤ 1024 ∧ reasonPattern c.reason)
    (hmessage : c.message.length ≤ maxMessage) :
    ∀ d ∈ rt.conditions.set now cs c, d.Admitted := by
  intro d hd
  have hstamp := stamp_admitted now htype hreason hmessage
  rcases ConditionSetter.mem_set hd with hd | rfl | ⟨old, hold, rfl⟩
  · exact hcs d hd
  · exact hstamp
  · unfold Condition.replace
    split_ifs
    · exact { hstamp with stamped := (hcs old hold).stamped }
    · exact hstamp

theorem availableType_ok : typePattern availableType ∧ availableType.length ≤ 316 := by decide

theorem degradedType_ok : typePattern degradedType ∧ degradedType.length ≤ 316 := by decide

/-- Every recorded reason fits the pattern. -/
theorem Outcome.reason_ok (o : Outcome) :
    o.reason ≠ "" ∧ o.reason.length ≤ 1024 ∧ reasonPattern o.reason := by
  revert o
  decide

/-- A usage the schema admits. -/
def IsPercent (u : Int32) : Prop := 0 ≤ u ∧ u ≤ 100

/-- **The submitted status**: with a recorded reason and from an admitted status, all depends on the
message, the usage and the count. -/
theorem applyTo_admitted_iff {u : StatusUpdate} {clock : Stamp → Time} {wl : WorkloadLifecycle}
    (hs : wl.status.Admitted) {o : Outcome} (hr : u.reason = o.reason) :
    (u.applyTo rt clock wl).status.Admitted ↔ u.message.length ≤ maxMessage ∧
      (∀ p, u.observedKVCacheUsagePercent = some p → IsPercent p) ∧
      ∀ n, u.desiredReplicas = some n → n ≠ 0 → 1 ≤ n := by
  have hreason := o.reason_ok
  rw [← hr] at hreason
  constructor
  · intro h
    refine ⟨?_, ?_, ?_⟩
    · obtain ⟨d, hd, -, hm⟩ := ConditionSetter.exists_mem_set rt.conditions (clock .degraded)
        (rt.conditions.set (clock .available) wl.status.conditions
          (u.condition wl.generation availableType u.available))
        (u.condition wl.generation degradedType u.degraded)
      have hle := (h.conditions d hd).message_le
      rwa [hm] at hle
    · intro p hp
      have hge := h.usage_ge
      have hle := h.usage_le
      simp only [StatusUpdate.applyTo, hp, Option.getD_some] at hge hle
      exact ⟨hge, hle⟩
    · intro n hn hne
      have hd := h.desired
      simp only [StatusUpdate.applyTo, hn, Option.getD_some] at hd
      exact hd hne
  · rintro ⟨hm, hu, hd⟩
    refine ⟨?_, ?_, ?_, ?_, ?_⟩
    · exact set_admitted (set_admitted hs.conditions availableType_ok hreason hm) degradedType_ok
        hreason hm
    · exact ConditionSetter.nodup_set (ConditionSetter.nodup_set hs.types_nodup)
    · simp only [StatusUpdate.applyTo]
      cases hp : u.observedKVCacheUsagePercent with
      | none => exact hs.usage_ge
      | some p => exact (hu p hp).1
    · simp only [StatusUpdate.applyTo]
      cases hp : u.observedKVCacheUsagePercent with
      | none => exact hs.usage_le
      | some p => exact (hu p hp).2
    · simp only [StatusUpdate.applyTo]
      cases hn : u.desiredReplicas with
      | none => exact hs.desired
      | some n => exact hd n hn

/-- A path submits admitted statuses exactly when its update fits. -/
theorem statusWrites_admitted_iff {w : World} {t : Tick} (hs : w.wl.status.Admitted) (x : Exit) :
    (∀ s ∈ x.statusWrites rt w t, s.1.status.Admitted) ↔
      ∀ u, x.update? w = some u → u.message.length ≤ maxMessage ∧
        (∀ p, u.observedKVCacheUsagePercent = some p → IsPercent p) ∧
        ∀ n, u.desiredReplicas = some n → n ≠ 0 → 1 ≤ n := by
  unfold Exit.statusWrites
  rcases update?_outcome? w x with ⟨hu, -⟩ | ⟨u, o, hu, -, hr, -⟩
  · simp [hu]
  · simp only [hu, List.mem_singleton, forall_eq, Option.some_inj, forall_eq']
    exact applyTo_admitted_iff hs hr

/-! ### Lengths of the error texts -/

theorem length_toString_int64 (n : Int64) : (toString n.toInt).length ≤ 20 := by
  have h1 := n.le_toInt
  have h2 := n.toInt_lt
  cases hn : n.toInt with
  | ofNat k =>
    rw [hn, Int.ofNat_eq_natCast] at h2
    show (Nat.repr k).length ≤ 20
    exact (Nat.length_repr_le_iff (by decide)).mpr (by omega)
  | negSucc k =>
    show ("-" ++ Nat.repr (k + 1)).length ≤ 20
    have hk : (Nat.repr (k + 1)).length ≤ 19 :=
      (Nat.length_repr_le_iff (by decide)).mpr (by omega)
    have hsign : "-".length = 1 := rfl
    rw [String.length_append]
    omega

/-- The text of a line's error, around the quoted field, is short enough. -/
def LineError.Fits (P : Platform) : LineError → Prop
  | .kvCache value e => 54 + (quote P.printable value).length + e.text.length ≤ maxMessage
  | .requestsWaiting value e => 50 + (quote P.printable value).length + e.text.length ≤ maxMessage

theorem numErrorText_length (P : Platform) (fn : String) (num : Text) (e : NumErr) :
    (numErrorText P fn num e).length =
      20 + fn.length + (quote P.printable num).length + e.text.length := by
  have h1 : "strconv.".length = 8 := rfl
  have h2 : ": parsing ".length = 10 := rfl
  have h3 : ": ".length = 2 := rfl
  simp only [numErrorText, String.length_append, h1, h2, h3]
  omega

theorem LineError.length_text_iff {P : Platform} (e : LineError) :
    (e.text P).length ≤ maxMessage ↔ e.Fits P := by
  cases e with
  | kvCache value e =>
    have h1 : "parsing kv cache usage: ".length = 24 := rfl
    have h2 : "ParseFloat".length = 10 := rfl
    have h3 := numErrorText_length P "ParseFloat" value e
    show ("parsing kv cache usage: " ++ numErrorText P "ParseFloat" value e).length ≤ maxMessage ↔
      54 + (quote P.printable value).length + e.text.length ≤ maxMessage
    generalize numErrorText P "ParseFloat" value e = x at h3 ⊢
    generalize (quote P.printable value).length = a, e.text.length = b, maxMessage = c at h3 ⊢
    rw [String.length_append]
    omega
  | requestsWaiting value e =>
    have h1 : "parsing requests waiting: ".length = 26 := rfl
    have h2 : "Atoi".length = 4 := rfl
    have h3 := numErrorText_length P "Atoi" value e
    show ("parsing requests waiting: " ++ numErrorText P "Atoi" value e).length ≤ maxMessage ↔
      50 + (quote P.printable value).length + e.text.length ≤ maxMessage
    generalize numErrorText P "Atoi" value e = x at h3 ⊢
    generalize (quote P.printable value).length = a, e.text.length = b, maxMessage = c at h3 ⊢
    rw [String.length_append]
    omega

/-- The text of the fetch error that an answer leads to, if any, is short enough. -/
def HttpAnswer.ErrorFits (P : Platform) : HttpAnswer → Prop
  | .badRequest err => 26 + err.length ≤ maxMessage
  | .failed err => 26 + err.length ≤ maxMessage
  | .response statusCode body =>
    statusCode = 200 → match body with
      | .error err => 26 + err.length ≤ maxMessage
      | .ok text => ∀ e, (lines text).findSome? (lineError? P) = some e → e.Fits P

theorem errorFits_iff {P : Platform} {a : HttpAnswer} {err : String}
    (h : readAnswer P a = .error err) : err.length ≤ maxMessage ↔ a.ErrorFits P := by
  cases a with
  | badRequest e =>
    cases h
    rw [String.length_append]
    rfl
  | failed e =>
    cases h
    rw [String.length_append]
    rfl
  | response statusCode body =>
    unfold readAnswer at h
    simp only [HttpAnswer.ErrorFits]
    by_cases hs : statusCode = 200
    · simp only [hs, ne_eq, not_true_eq_false, if_false] at h
      simp only [hs, true_imp_iff]
      cases body with
      | error e =>
        cases h
        rw [String.length_append]
        rfl
      | ok text =>
        simp only [parse_error] at h
        cases he : (lines text).findSome? (lineError? P) with
        | none => rw [he] at h; cases h
        | some e =>
          rw [he] at h
          cases h
          rw [e.length_text_iff]
          exact ⟨fun hfit e' he' => Option.some_inj.mp (he.symm.trans he') ▸ hfit,
            fun hall => hall e he⟩
    · simp only [hs, ne_eq, not_false_eq_true, if_true] at h
      cases h
      have hlen := length_toString_int64 statusCode
      have hpre : "metrics endpoint returned status ".length = 33 := rfl
      have hmax : 53 ≤ maxMessage := by decide
      refine iff_of_true ?_ (fun h' => absurd h' hs)
      rw [String.length_append]
      omega

theorem errorFits_of_ok {P : Platform} {a : HttpAnswer} {m : Metrics}
    (h : readAnswer P a = .ok m) : a.ErrorFits P := by
  obtain ⟨text, rfl, hm⟩ := readAnswer_ok h
  rintro - e he
  have := (parse_error (P := P) text (e.text P)).mpr (by rw [he]; rfl)
  rw [hm] at this
  cases this

/-! ### Every result of the conversion -/

/-- The runtime with another out-of-range conversion. -/
def Runtime.withOutOfRange (rt : Runtime) (outOfRange : Float64 → Int32) : Runtime :=
  { rt with outOfRange }

/-- The last KV-cache sample, if any, is a finite number whose percentage truncates to 0..100. -/
def SamplesPercent (P : Platform) (text : Text) : Prop :=
  ∀ f, (samples kvCacheName text).getLast? = some f →
    ∃ q, parseFloat P f = .ok (.finite q) ∧ -1 < 100 * q ∧ 100 * q < 101

section Conversion

variable {o : Float64 → Int32} {text : Text} {m : Metrics} {err : String}

/-- Which texts parse, and the error of the others, does not depend on the conversion. -/
theorem parse_error_withOutOfRange :
    parsePrometheusMetrics (rt.withOutOfRange o).toPlatform text = .error err ↔
      parsePrometheusMetrics rt.toPlatform text = .error err := by
  rw [parse_error, parse_error]
  rfl

theorem readAnswer_error_withOutOfRange {a : HttpAnswer} :
    readAnswer (rt.withOutOfRange o).toPlatform a = .error err ↔
      readAnswer rt.toPlatform a = .error err := by
  cases a with
  | badRequest e => rfl
  | failed e => rfl
  | response statusCode body =>
    unfold readAnswer
    by_cases hs : statusCode ≠ 200
    · simp only [if_pos hs]
    · simp only [if_neg hs]
      cases body with
      | error e => rfl
      | ok text => exact parse_error_withOutOfRange

variable (rt) in
theorem exists_parse_withOutOfRange (o : Float64 → Int32)
    (h : parsePrometheusMetrics rt.toPlatform text = .ok m) :
    ∃ m', parsePrometheusMetrics (rt.withOutOfRange o).toPlatform text = .ok m' := by
  cases h' : parsePrometheusMetrics (rt.withOutOfRange o).toPlatform text with
  | ok m' => exact ⟨m', rfl⟩
  | error err =>
    rw [parse_error_withOutOfRange, h] at h'
    cases h'

theorem isPercent_iff {u : Int32} : IsPercent u ↔ 0 ≤ u.toInt ∧ u.toInt ≤ 100 := by
  rw [IsPercent, Int32.le_iff_toInt_le, Int32.le_iff_toInt_le]
  rfl

/-- A percentage in the last sample is read the same under every conversion. -/
theorem usage_of_samplesPercent (hunit : rt.unit = .exact) (hs : SamplesPercent rt.toPlatform text) :
    ∃ n : ℤ, 0 ≤ n ∧ n ≤ 100 ∧ ∀ o m,
      parsePrometheusMetrics (rt.withOutOfRange o).toPlatform text = .ok m →
        m.kvCacheUsagePercent.toInt = n := by
  cases hlast : (samples kvCacheName text).getLast? with
  | none =>
    refine ⟨0, le_rfl, by norm_num, fun o m h => ?_⟩
    rcases usage_source h with hsub | ⟨-, f, q, hf, -⟩
    · simp only [substitute?, hlast, Option.some_inj] at hsub
      rw [← hsub]
      rfl
    · rw [hlast] at hf
      cases hf
  | some f =>
    obtain ⟨q, hq, hgt, hlt⟩ := hs f hlast
    have hmul : rt.unit.mul q 100 = 100 * q := by
      rw [hunit]
      exact mul_comm q 100
    obtain ⟨hge, hle⟩ := truncate_percent_iff.mpr ⟨hgt, hlt⟩
    refine ⟨truncate (100 * q), hge, hle, fun o m h => ?_⟩
    have hfits : (Float64.finite (rt.unit.mul q 100)).outOfInt32? (rt.withOutOfRange o).toPlatform =
        none := by
      rw [hmul]
      exact if_pos ⟨by omega, by omega⟩
    have hparse : parseFloat (rt.withOutOfRange o).toPlatform f = .ok (.finite q) := hq
    rcases usage_source h with hsub | ⟨-, f', q', hf', hq', htrunc⟩
    · simp only [substitute?, hlast, hparse] at hsub
      cases hfits.symm.trans hsub
    · rw [hlast] at hf'
      obtain rfl := Option.some_inj.mp hf'
      rw [hparse] at hq'
      cases hq'
      rw [htrunc, ← hmul]
      rfl

/-- A text whose usage is a percentage under every conversion has one in its last sample. -/
theorem samplesPercent_of_forall (hunit : rt.unit = .exact)
    (h : parsePrometheusMetrics rt.toPlatform text = .ok m)
    (hall : ∀ o m, parsePrometheusMetrics (rt.withOutOfRange o).toPlatform text = .ok m →
      IsPercent m.kvCacheUsagePercent) : SamplesPercent rt.toPlatform text := by
  intro f hlast
  obtain ⟨m', hm'⟩ := exists_parse_withOutOfRange rt (fun _ => -1) h
  have hpercent := hall _ _ hm'
  obtain ⟨v, hv⟩ := (parse_ok hm').1 f (List.mem_of_getLast? hlast)
  rcases usage_source hm' with hsub | ⟨-, f', q, hf', hq, htrunc⟩
  · simp only [substitute?, hlast, hv] at hsub
    rw [outOfInt32?_eq_some hsub] at hpercent
    exact absurd hpercent.1 (by show ¬ (0 : Int32) ≤ -1; decide)
  · rw [hlast] at hf'
    obtain rfl := Option.some_inj.mp hf'
    have hmul : (rt.withOutOfRange fun _ => -1).unit.mul q 100 = 100 * q := by
      show rt.unit.mul q 100 = 100 * q
      rw [hunit]
      exact mul_comm q 100
    rw [isPercent_iff, htrunc, truncate_percent_iff, hmul] at hpercent
    exact ⟨q, hq, hpercent⟩

end Conversion

/-! ### What a call is given -/

/-- The texts of the errors the call meets are short enough to be recorded, the last KV-cache sample
of the body it parses is a percentage, and it does not scale up from the largest int32. -/
def Submittable (rt : Runtime) (w : World) (t : Tick) : Prop :=
  t.getErr = none → t.metrics.ErrorFits rt.toPlatform ∧
    ∀ text m, t.metrics = .response 200 (.ok text) →
      parsePrometheusMetrics rt.toPlatform text = .ok m →
      SamplesPercent rt.toPlatform text ∧
        match deployAnswer t w.deployments w.wl.deployKey with
        | .error err => err.text.length ≤ maxMessage
        | .ok d =>
          ¬ (d.count.toInt = 2 ^ 31 - 1 ∧ w.wl.spec.asks m.kvCacheUsagePercent = .up) ∧
            ∀ err, desiredOf w m d ≠ d.count →
              updateAnswer t w.deployments (submitted w m d) = .error err →
              err.text.length ≤ maxMessage

/-- From a count the API server can store, a desired count computed without wrapping is one the
schema admits. -/
theorem desired_admitted {spec : WorkloadLifecycleSpec} (hs : spec.Admitted) {c u : Int32}
    (hc : 0 ≤ c.toInt) (hwrap : ¬ (c.toInt = 2 ^ 31 - 1 ∧ spec.asks u = .up)) :
    computeDesiredReplicas c u spec ≠ 0 → 1 ≤ computeDesiredReplicas c u spec := by
  intro hne
  have hlt := c.toInt_lt
  have hmin := Int32.le_iff_toInt_le.mp hs.min_ge
  have hmax := Int32.le_iff_toInt_le.mp hs.max_ge
  rw [Int32.toInt_one] at hmin hmax
  have hd := computeDesiredReplicas_toInt (c := c) (u := u)
    (fun hup => by have : c.toInt ≠ 2 ^ 31 - 1 := fun h => hwrap ⟨h, hup⟩; omega)
    (fun _ => by omega)
  rw [Int32.le_iff_toInt_le, Int32.toInt_one]
  have hne' : (computeDesiredReplicas c u spec).toInt ≠ 0 := by
    intro h0
    exact hne (Int32.toInt_inj.mp (by rw [h0, Int32.toInt_zero]))
  cases hm : spec.asks u with
  | up =>
    rw [hm] at hd
    simp only [clampStep, Order.succ_eq_add_one] at hd
    omega
  | down =>
    rw [hm] at hd
    simp only [clampStep, Order.pred_eq_sub_one] at hd
    omega
  | hold =>
    rw [hm] at hd
    simp only [clampStep] at hd
    omega

section Call

variable {w : World} {t : Tick} {o : Float64 → Int32} {m : Metrics}

/-- What `Submittable` says of the metrics a call got under any conversion. -/
theorem submittable_reads (hunit : rt.unit = .exact) (h : Submittable rt w t)
    (get : t.getErr = none)
    (fetch : readAnswer (rt.withOutOfRange o).toPlatform t.metrics = .ok m) :
    IsPercent m.kvCacheUsagePercent ∧
      (∀ err, deployAnswer t w.deployments w.wl.deployKey = .error err →
        err.text.length ≤ maxMessage) ∧
      ∀ d, deployAnswer t w.deployments w.wl.deployKey = .ok d →
        ¬ (d.count.toInt = 2 ^ 31 - 1 ∧ w.wl.spec.asks m.kvCacheUsagePercent = .up) ∧
          ∀ err, desiredOf w m d ≠ d.count →
            updateAnswer t w.deployments (submitted w m d) = .error err →
            err.text.length ≤ maxMessage := by
  obtain ⟨text, htext, hm⟩ := readAnswer_ok fetch
  obtain ⟨m', hm'⟩ : ∃ m', parsePrometheusMetrics rt.toPlatform text = .ok m' :=
    exists_parse_withOutOfRange (rt.withOutOfRange o) rt.outOfRange hm
  obtain ⟨hsample, hrest⟩ := (h get).2 text m' htext hm'
  obtain ⟨n, hge, hle, hn⟩ := usage_of_samplesPercent hunit hsample
  have husage : m'.kvCacheUsagePercent = m.kvCacheUsagePercent :=
    Int32.toInt_inj.mp ((hn rt.outOfRange m' hm').trans (hn o m hm).symm)
  have hdes : desiredOf w m' = desiredOf w m := by
    funext d
    rw [desiredOf, desiredOf, husage]
  have hsub : submitted w m' = submitted w m := by
    funext d
    rw [submitted, submitted, hdes]
  refine ⟨isPercent_iff.mpr (by rw [hn o m hm]; exact ⟨hge, hle⟩), fun err herr => ?_,
    fun d hd => ?_⟩
  · rw [herr] at hrest
    exact hrest
  · rw [hd] at hrest
    simpa only [husage, hdes, hsub] using hrest

/-- A call that is given submittable data submits an admitted status. -/
theorem update_fits (hunit : rt.unit = .exact) (hspec : w.wl.spec.Admitted)
    (hcount : ∀ d, w.target = some d → 0 ≤ d.count.toInt) (h : Submittable rt w t) {x : Exit}
    (hx : Exits (rt.withOutOfRange o) w t x) {u : StatusUpdate} (hu : x.update? w = some u) :
    u.message.length ≤ maxMessage ∧
      (∀ p, u.observedKVCacheUsagePercent = some p → IsPercent p) ∧
      ∀ n, u.desiredReplicas = some n → n ≠ 0 → 1 ≤ n := by
  have hempty : "".length ≤ maxMessage := Nat.zero_le _
  cases hx with
  | unreadable get => cases hu
  | metricsUnavailable get fetch =>
    cases hu
    have hfits := (h get).1
    rw [← errorFits_iff (readAnswer_error_withOutOfRange.mp fetch)] at hfits
    exact ⟨hfits, by simp, by simp⟩
  | targetDeploymentNotFound get fetch read =>
    cases hu
    obtain ⟨hpercent, herr, -⟩ := submittable_reads hunit h get fetch
    exact ⟨herr _ read, by simpa using hpercent, by simp⟩
  | holding get fetch read same =>
    cases hu
    obtain ⟨hpercent, -, hok⟩ := submittable_reads hunit h get fetch
    have hdes := desired_admitted hspec (hcount _ (deployAnswer_ok read).2) (hok _ read).1
    exact ⟨hempty, by simpa using hpercent, by simpa [desiredOf] using hdes⟩
  | scaleFailed get fetch read change update =>
    cases hu
    obtain ⟨hpercent, -, hok⟩ := submittable_reads hunit h get fetch
    have hdes := desired_admitted hspec (hcount _ (deployAnswer_ok read).2) (hok _ read).1
    exact ⟨(hok _ read).2 _ change update, by simpa using hpercent, by simpa [desiredOf] using hdes⟩
  | scaled get fetch read change update =>
    cases hu
    obtain ⟨hpercent, -, hok⟩ := submittable_reads hunit h get fetch
    have hdes := desired_admitted hspec (hcount _ (deployAnswer_ok read).2) (hok _ read).1
    exact ⟨hempty, by simpa using hpercent, by simpa [desiredOf] using hdes⟩

/-- A call that has its metrics records their usage. -/
theorem update_usage {x : Exit} (hx : Exits rt w t x) (get : t.getErr = none)
    (fetch : readAnswer rt.toPlatform t.metrics = .ok m) :
    ∃ u, x.update? w = some u ∧
      u.observedKVCacheUsagePercent = some m.kvCacheUsagePercent := by
  cases hx with
  | unreadable get' => rw [get] at get'; cases get'
  | metricsUnavailable get' fetch' => rw [fetch] at fetch'; cases fetch'
  | targetDeploymentNotFound get' fetch' => rw [fetch] at fetch'; cases fetch'; exact ⟨_, rfl, rfl⟩
  | holding get' fetch' => rw [fetch] at fetch'; cases fetch'; exact ⟨_, rfl, rfl⟩
  | scaleFailed get' fetch' => rw [fetch] at fetch'; cases fetch'; exact ⟨_, rfl, rfl⟩
  | scaled get' fetch' => rw [fetch] at fetch'; cases fetch'; exact ⟨_, rfl, rfl⟩

/-- A call that submits admitted statuses under every conversion is given submittable data. -/
theorem submittable_of_fits (hunit : rt.unit = .exact)
    (h : ∀ o x, Exits (rt.withOutOfRange o) w t x → ∀ u, x.update? w = some u →
      u.message.length ≤ maxMessage ∧
        (∀ p, u.observedKVCacheUsagePercent = some p → IsPercent p) ∧
        ∀ n, u.desiredReplicas = some n → n ≠ 0 → 1 ≤ n) : Submittable rt w t := by
  have hrt : ∀ x, Exits rt w t x → ∀ u, x.update? w = some u → _ := h rt.outOfRange
  intro get
  refine ⟨?_, fun text m htext hm => ⟨?_, ?_⟩⟩
  · cases hf : readAnswer rt.toPlatform t.metrics with
    | error err => exact (errorFits_iff hf).mp (hrt _ (.metricsUnavailable get hf) _ rfl).1
    | ok m => exact errorFits_of_ok hf
  · refine samplesPercent_of_forall hunit hm fun o m' hm' => ?_
    have hfetch : readAnswer (rt.withOutOfRange o).toPlatform t.metrics = .ok m' := by
      rw [htext]
      exact hm'
    have hx := exits_exitOf (rt.withOutOfRange o) w t
    obtain ⟨u, hu, husage⟩ := update_usage hx get hfetch
    exact (h o _ hx u hu).2.1 _ husage
  · have hfetch : readAnswer rt.toPlatform t.metrics = .ok m := by
      rw [htext]
      exact hm
    cases hread : deployAnswer t w.deployments w.wl.deployKey with
    | error err => exact (hrt _ (.targetDeploymentNotFound get hfetch hread) _ rfl).1
    | ok d =>
      refine ⟨?_, fun err hne hup => (hrt _ (.scaleFailed get hfetch hread hne hup) _ rfl).1⟩
      rintro ⟨hc, hup⟩
      have hw : (desiredOf w m d).toInt = -2 ^ 31 := computeDesiredReplicas_wrap hup hc
      have hne : desiredOf w m d ≠ d.count := by
        intro heq
        rw [heq] at hw
        omega
      have hdes : desiredOf w m d ≠ 0 → 1 ≤ desiredOf w m d := by
        cases hupd : updateAnswer t w.deployments (submitted w m d) with
        | error err => exact (hrt _ (.scaleFailed get hfetch hread hne hupd) _ rfl).2.2 _ rfl
        | ok s => exact (hrt _ (.scaled get hfetch hread hne hupd) _ rfl).2.2 _ rfl
      have hne0 : desiredOf w m d ≠ 0 := by
        intro h0
        rw [h0, Int32.toInt_zero] at hw
        omega
      have hle := Int32.le_iff_toInt_le.mp (hdes hne0)
      rw [Int32.toInt_one] at hle
      omega

/-- **When every submitted status is admitted.**  With exact arithmetic, from an admitted spec and an
admitted stored status, a call submits only admitted statuses, whatever the conversion to int32
returns out of range, exactly when it is given submittable data. -/
theorem submits_admitted_iff (hunit : rt.unit = .exact) (hspec : (w.disturb t).wl.spec.Admitted)
    (hstatus : (w.disturb t).wl.status.Admitted)
    (hcount : ∀ d, (w.disturb t).target = some d → 0 ≤ d.count.toInt) :
    (∀ o, ∀ s ∈ (call (rt.withOutOfRange o) w t).statusWrites, s.1.status.Admitted) ↔
      Submittable rt (w.disturb t) t := by
  constructor
  · intro h
    refine submittable_of_fits hunit fun o x hx => ?_
    have ho := h o
    rw [call_statusWrites, callExit_eq _ _ _ hx] at ho
    exact (statusWrites_admitted_iff hstatus x).mp ho
  · intro h o
    rw [call_statusWrites, statusWrites_admitted_iff hstatus]
    exact fun u hu => update_fits hunit hspec hcount h (exits_callExit _ w t) hu

end Call

theorem submits_admitted_iff_sample :
    (∀ o, ∀ s ∈ (call ((Runtime.exact 0).withOutOfRange o) (.fresh .sample (some 2))
      (.serving "vllm_kv_cache_usage_perc 0.5")).statusWrites, s.1.status.Admitted) ↔
      Submittable (.exact 0) (.fresh .sample (some 2)) (.serving "vllm_kv_cache_usage_perc 0.5") :=
  submits_admitted_iff (w := .fresh .sample (some 2)) rfl sample_admitted admitted_empty
    fun d hd => by cases hd; decide

/-- A usage of 150% is submitted as it is read. -/
theorem overfull_cache_not_admitted :
    ¬ ∀ (rt : Runtime) (w : World) (t : Tick), rt.unit = .exact → (w.disturb t).wl.spec.Admitted →
      (w.disturb t).wl.status.Admitted →
      (∀ d, (w.disturb t).target = some d → 0 ≤ d.count.toInt) →
      ∀ s ∈ (call rt w t).statusWrites, s.1.status.Admitted := by
  intro h
  have hall := h (.exact 0) (.fresh .sample (some 2)) (.serving "vllm_kv_cache_usage_perc 1.5") rfl
    sample_admitted admitted_empty fun d hd => by cases hd; decide
  have hf : readAnswer (Runtime.exact 0).toPlatform
      (Tick.serving "vllm_kv_cache_usage_perc 1.5").metrics =
        .ok { kvCacheUsagePercent := 150 } := by decide +kernel
  obtain ⟨u, hu, husage⟩ := update_usage (exits_callExit (.exact 0) (.fresh .sample (some 2))
    (.serving "vllm_kv_cache_usage_perc 1.5")) rfl hf
  rw [call_statusWrites, statusWrites_admitted_iff admitted_empty] at hall
  exact absurd ((hall u hu).2.1 _ husage).2 (by decide)

end InfraDemo.Operator
