import InfraDemo.Go.Strconv

/-!
# Metrics — what the reconciler learns from the metrics endpoint

`parsePrometheusMetrics` and `HTTPMetricsProvider.GetMetrics`.  The answer of the HTTP client is
data (`HttpAnswer`); what the provider makes of it is `readAnswer`.

The parser is a left fold over the lines.  `samples name text` are the value fields of the two-field
lines named `name`; `parse_ok` says that a successful parse has read every sample and kept the last
one of each name.
-/

namespace InfraDemo.Operator

open InfraDemo.Go

structure Metrics where
  kvCacheUsagePercent : Int32 := 0
  numRequestsWaiting : Int32 := 0
  deriving DecidableEq

def kvCacheName : Text := lit "vllm_kv_cache_usage_perc"

def requestsWaitingName : Text := lit "vllm_num_requests_waiting"

theorem requestsWaitingName_ne : requestsWaitingName ≠ kvCacheName := by decide +kernel

variable (P : Platform)

/-- `int32(v * 100)`. -/
def usagePercent (v : Float64) : Int32 := (v.timesHundred P).toInt32 P

/-- One turn of the loop over the lines. -/
def parseLine (m : Metrics) (line : Text) : Except String Metrics :=
  match fields line with
  | [name, value] =>
    if name = kvCacheName then
      match parseFloat P value with
      | .error e => .error ("parsing kv cache usage: " ++ numErrorText P "ParseFloat" value e)
      | .ok v => .ok { m with kvCacheUsagePercent := usagePercent P v }
    else if name = requestsWaitingName then
      match atoi value with
      | .error e => .error ("parsing requests waiting: " ++ numErrorText P "Atoi" value e)
      | .ok v => .ok { m with numRequestsWaiting := Int32.ofInt v }
    else .ok m
  | _ => .ok m

/-- The zero `Metrics` that the source returns beside an error is left out. -/
def parsePrometheusMetrics (text : Text) : Except String Metrics :=
  (lines text).foldlM (parseLine P) {}

/-- How an HTTP request can end: `http.NewRequestWithContext` or `Client.Do` fails, or there is a
status code and a body that may fail to be read. -/
inductive HttpAnswer where
  | badRequest (err : String)
  | failed (err : String)
  | response (statusCode : Int64) (body : Except String Text)

/-- `HTTPMetricsProvider.GetMetrics`, from the answer of the HTTP client on. -/
def readAnswer : HttpAnswer → Except String Metrics
  | .badRequest err => .error ("building metrics request: " ++ err)
  | .failed err => .error ("calling metrics endpoint: " ++ err)
  | .response statusCode body =>
    if statusCode ≠ 200 then
      .error ("metrics endpoint returned status " ++ toString statusCode.toInt)
    else match body with
      | .error err => .error ("reading metrics response: " ++ err)
      | .ok text => parsePrometheusMetrics P text

/-- A whole number of times the full cache. -/
theorem usagePercent_int {n : ℤ} (h : |100 * n| < 2 ^ 31) :
    (usagePercent P (.finite n)).toInt = 100 * n := by
  have hmul : P.unit.mul n 100 = (100 * n : ℤ) :=
    P.unit.mul_int h.le (by push_cast; ring)
  have htrunc : truncate (P.unit.mul n 100) = 100 * n := by rw [hmul, truncate_int]
  rw [abs_lt] at h
  show ((Float64.finite (P.unit.mul n 100)).toInt32 P).toInt = 100 * n
  rw [toInt32_finite P (by rw [htrunc]; omega) (by rw [htrunc]; omega), htrunc]

/-- Exact arithmetic, within the int32 range. -/
theorem usagePercent_exact {v : ℚ} (hmul : P.unit.mul v 100 = v * 100) (hv : |100 * v| < 2 ^ 31) :
    (usagePercent P (.finite v)).toInt = truncate (100 * v) := by
  obtain ⟨hlow, hhigh⟩ := truncate_of_abs_lt (n := 2 ^ 31) (by exact_mod_cast hv)
  show ((Float64.finite (P.unit.mul v 100)).toInt32 P).toInt = truncate (100 * v)
  rw [hmul, mul_comm]
  exact toInt32_finite P hlow.le hhigh

/-! ### Samples -/

/-- The value field of a line that splits into exactly `name` and a value. -/
def sample? (name line : Text) : Option Text :=
  match fields line with
  | [n, value] => if n = name then some value else none
  | _ => none

/-- The samples of `name` in a text, in order. -/
def samples (name text : Text) : List Text := (lines text).filterMap (sample? name)

theorem sample?_eq_some {name line value : Text} :
    sample? name line = some value ↔ fields line = [name, value] := by
  unfold sample?
  split
  · next n v h =>
    by_cases hn : n = name <;> simp [h, hn]
  · next h =>
    constructor
    · intro h'; simp at h'
    · intro h'; exact absurd h' (h _ _)

/-- The usage a list of KV-cache samples leaves, starting from `u`: the last sample's. -/
def lastUsage (u : Int32) : List Text → Int32
  | [] => u
  | f :: fs =>
    match parseFloat P f with
    | .ok v => lastUsage (usagePercent P v) fs
    | .error _ => lastUsage u fs

variable {P}

theorem lastUsage_concat {u : Int32} {fs : List Text} {f : Text} {v : Float64}
    (hv : parseFloat P f = .ok v) : lastUsage P u (fs ++ [f]) = usagePercent P v := by
  induction fs generalizing u with
  | nil => simp only [List.nil_append, lastUsage, hv]
  | cons g fs ih =>
    simp only [List.cons_append, lastUsage]
    cases parseFloat P g with
    | ok w => exact ih
    | error e => exact ih

/-- What one line does when it is no error: a KV-cache sample parses and is stored, any other line
leaves the usage. -/
theorem parseLine_ok {m m' : Metrics} {line : Text} (h : parseLine P m line = .ok m') :
    (∀ f, sample? kvCacheName line = some f → ∃ v, parseFloat P f = .ok v) ∧
      m'.kvCacheUsagePercent =
        lastUsage P m.kvCacheUsagePercent (sample? kvCacheName line).toList := by
  unfold parseLine at h
  unfold sample?
  split at h
  · next name value hf =>
    by_cases hk : name = kvCacheName
    · simp only [if_pos hk] at h ⊢
      cases hv : parseFloat P value with
      | error e => rw [hv] at h; simp at h
      | ok v =>
        rw [hv] at h
        simp only [Except.ok.injEq] at h
        subst h
        refine ⟨fun f hf => ⟨v, by simp at hf; exact hf ▸ hv⟩, ?_⟩
        simp [lastUsage, hv]
    · simp only [if_neg hk] at h ⊢
      refine ⟨fun f hf => by simp at hf, ?_⟩
      by_cases hr : name = requestsWaitingName
      · rw [if_pos hr] at h
        cases hv : atoi value with
        | error e => rw [hv] at h; simp at h
        | ok v =>
          rw [hv] at h
          simp only [Except.ok.injEq] at h
          subst h
          rfl
      · rw [if_neg hr, Except.ok.injEq] at h
        subst h
        rfl
  · next hf =>
    simp only [Except.ok.injEq] at h
    subst h
    exact ⟨fun f hf => by simp at hf, rfl⟩

theorem lastUsage_append (u : Int32) (fs gs : List Text) :
    lastUsage P u (fs ++ gs) = lastUsage P (lastUsage P u fs) gs := by
  induction fs generalizing u with
  | nil => rfl
  | cons f fs ih =>
    simp only [List.cons_append, lastUsage]
    cases parseFloat P f with
    | ok v => exact ih _
    | error e => exact ih _

theorem foldlM_ok : ∀ (ls : List Text) (m m' : Metrics),
    ls.foldlM (parseLine P) m = .ok m' →
    (∀ f ∈ ls.filterMap (sample? kvCacheName), ∃ v, parseFloat P f = .ok v) ∧
      m'.kvCacheUsagePercent =
        lastUsage P m.kvCacheUsagePercent (ls.filterMap (sample? kvCacheName))
  | [], m, m', h => by
    cases h
    exact ⟨by simp, rfl⟩
  | l :: ls, m, m', h => by
    rw [List.foldlM_cons] at h
    cases h1 : parseLine P m l with
    | error e => rw [h1] at h; cases h
    | ok m1 =>
      rw [h1] at h
      obtain ⟨hl, hu⟩ := parseLine_ok h1
      obtain ⟨hls, hus⟩ := foldlM_ok ls m1 m' h
      have hsplit : (l :: ls).filterMap (sample? kvCacheName) =
          (sample? kvCacheName l).toList ++ ls.filterMap (sample? kvCacheName) := by
        cases hs : sample? kvCacheName l <;> simp [hs]
      rw [hsplit]
      refine ⟨fun f hf => ?_, by rw [lastUsage_append, ← hu, hus]⟩
      rcases List.mem_append.mp hf with hf | hf
      · exact hl f (by simpa using hf)
      · exact hls f hf

/-- **A successful parse**: every KV-cache sample is a float, and the usage is the last one's, zero
if there is none. -/
theorem parse_ok {text : Text} {m : Metrics} (h : parsePrometheusMetrics P text = .ok m) :
    (∀ f ∈ samples kvCacheName text, ∃ v, parseFloat P f = .ok v) ∧
      m.kvCacheUsagePercent = lastUsage P 0 (samples kvCacheName text) :=
  foldlM_ok _ _ _ h

/-! ### Errors -/

/-- What is wrong with the value field of a relevant line. -/
inductive LineError where
  | kvCache (value : Text) (e : NumErr)
  | requestsWaiting (value : Text) (e : NumErr)
  deriving DecidableEq

/-- The text of the error the parser returns for a line. -/
def LineError.text (P : Platform) : LineError → String
  | .kvCache value e => "parsing kv cache usage: " ++ numErrorText P "ParseFloat" value e
  | .requestsWaiting value e => "parsing requests waiting: " ++ numErrorText P "Atoi" value e

/-- The error of one line. -/
def lineError? (P : Platform) (line : Text) : Option LineError :=
  match fields line with
  | [name, value] =>
    if name = kvCacheName then
      match parseFloat P value with
      | .error e => some (.kvCache value e)
      | .ok _ => none
    else if name = requestsWaitingName then
      match atoi value with
      | .error e => some (.requestsWaiting value e)
      | .ok _ => none
    else none
  | _ => none

theorem parseLine_error (m : Metrics) (line : Text) (err : String) :
    parseLine P m line = .error err ↔ (lineError? P line).map (LineError.text P) = some err := by
  unfold parseLine lineError?
  split
  · next name value hf =>
    by_cases hk : name = kvCacheName
    · rw [if_pos hk, if_pos hk]
      cases parseFloat P value with
      | error e => exact ⟨fun h => congrArg some (Except.error.inj h),
          fun h => congrArg Except.error (Option.some_inj.mp h)⟩
      | ok v => exact iff_of_false (by rintro ⟨⟩) (by rintro ⟨⟩)
    · rw [if_neg hk, if_neg hk]
      by_cases hr : name = requestsWaitingName
      · rw [if_pos hr, if_pos hr]
        cases atoi value with
        | error e => exact ⟨fun h => congrArg some (Except.error.inj h),
            fun h => congrArg Except.error (Option.some_inj.mp h)⟩
        | ok v => exact iff_of_false (by rintro ⟨⟩) (by rintro ⟨⟩)
      · rw [if_neg hr, if_neg hr]
        exact iff_of_false (by rintro ⟨⟩) (by rintro ⟨⟩)
  · exact iff_of_false (by rintro ⟨⟩) (by rintro ⟨⟩)

/-- **The error of a parse** is that of the first line that has one. -/
theorem parse_error (text : Text) (err : String) : parsePrometheusMetrics P text = .error err ↔
    ((lines text).findSome? (lineError? P)).map (LineError.text P) = some err := by
  unfold parsePrometheusMetrics
  generalize ({} : Metrics) = m
  induction lines text generalizing m with
  | nil => simp [List.foldlM_nil, pure, Except.pure]
  | cons l ls ih =>
    rw [List.foldlM_cons, List.findSome?_cons]
    cases hl : parseLine P m l with
    | error e =>
      have he := (parseLine_error m l e).mp hl
      cases hle : lineError? P l with
      | none => rw [hle] at he; cases he
      | some x =>
        rw [hle] at he
        rw [Option.map_some, Option.some_inj] at he
        simp [bind, Except.bind, he]
    | ok m1 =>
      have hle : lineError? P l = none := by
        cases hx : lineError? P l with
        | none => rfl
        | some x =>
          have he := (parseLine_error m l (x.text P)).mpr (by rw [hx]; rfl)
          rw [hl] at he
          cases he
      rw [hle]
      exact ih m1

/-! ### The source of the usage -/

/-- The usage that stands in where the last KV-cache sample gives none: zero without a sample, the
conversion's result for one whose percentage no int32 represents. -/
def substitute? (P : Platform) (text : Text) : Option Int32 :=
  match (samples kvCacheName text).getLast? with
  | none => some 0
  | some f =>
    match parseFloat P f with
    | .error _ => none
    | .ok v => (v.timesHundred P).outOfInt32? P

/-- **Where the usage comes from**: a stand-in, or a finite number in the last KV-cache sample. -/
theorem usage_source {text : Text} {m : Metrics} (h : parsePrometheusMetrics P text = .ok m) :
    substitute? P text = some m.kvCacheUsagePercent ∨ substitute? P text = none ∧
      ∃ f q, (samples kvCacheName text).getLast? = some f ∧ parseFloat P f = .ok (.finite q) ∧
        m.kvCacheUsagePercent.toInt = truncate (P.unit.mul q 100) := by
  obtain ⟨hparse, husage⟩ := parse_ok h
  unfold substitute?
  rcases List.eq_nil_or_concat' (samples kvCacheName text) with hnil | ⟨fs, f, hfs⟩
  · rw [hnil] at husage ⊢
    exact .inl (congrArg some husage.symm)
  · have hlast : (samples kvCacheName text).getLast? = some f := by rw [hfs, List.getLast?_concat]
    obtain ⟨v, hv⟩ := hparse f (List.mem_of_getLast? hlast)
    rw [hfs, lastUsage_concat hv] at husage
    simp only [hlast, hv]
    cases hsub : (v.timesHundred P).outOfInt32? P with
    | some u =>
      refine .inl ?_
      rw [husage, usagePercent, toInt32_of_some hsub]
    | none =>
      obtain ⟨r, hr, htrunc⟩ := toInt32_of_none hsub
      obtain ⟨q, rfl, rfl⟩ := timesHundred_eq_finite hr
      exact .inr ⟨rfl, f, q, rfl, hv, by rw [husage]; exact htrunc⟩

/-- Metrics come from a 200 response that parses. -/
theorem readAnswer_ok {answer : HttpAnswer} {m : Metrics}
    (h : readAnswer P answer = .ok m) :
    ∃ text, answer = .response 200 (.ok text) ∧ parsePrometheusMetrics P text = .ok m := by
  cases answer with
  | badRequest err => cases h
  | failed err => cases h
  | response statusCode body =>
    unfold readAnswer at h
    by_cases hs : statusCode ≠ 200
    · simp only [if_pos hs] at h
      cases h
    · simp only [if_neg hs] at h
      rw [not_not.mp hs]
      cases body with
      | error err => cases h
      | ok text => exact ⟨text, rfl, h⟩

/-- A text of one line, with a KV-cache sample. -/
theorem parse_single {text f : Text} {v : Float64} (hl : lines text = [text])
    (hf : fields text = [kvCacheName, f]) (hv : parseFloat P f = .ok v) :
    parsePrometheusMetrics P text = .ok { kvCacheUsagePercent := usagePercent P v } := by
  simp only [parsePrometheusMetrics, hl, List.foldlM_cons, List.foldlM_nil, parseLine, hf, hv,
    if_true]
  rfl

end InfraDemo.Operator
