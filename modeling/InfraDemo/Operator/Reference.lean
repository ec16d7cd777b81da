import InfraDemo.Lib.Registers
import InfraDemo.Go.Layout
import InfraDemo.Operator.Metrics

/-!
# Reference — the metrics parser as a log of writes

A line of the endpoint's text writes one of two registers or nothing (`write?`), and the parser replays
the log (`foldlM_replay`).  So only the samples of each name matter, in their order, and the last one
gives the value.
-/

namespace InfraDemo.Operator

open InfraDemo.Go InfraDemo.Registers

/-- The metrics that the parser reads. -/
inductive Metric where
  | kvCacheUsage
  | requestsWaiting
  deriving DecidableEq

def Metric.name : Metric → Text
  | .kvCacheUsage => kvCacheName
  | .requestsWaiting => requestsWaitingName

def Metrics.get (m : Metrics) : Metric → Int32
  | .kvCacheUsage => m.kvCacheUsagePercent
  | .requestsWaiting => m.numRequestsWaiting

variable (P : Platform)

/-- What the parser makes of the value field. -/
def Metric.read : Metric → Text → Except String Int32
  | .kvCacheUsage, value =>
    match parseFloat P value with
    | .error e => .error ("parsing kv cache usage: " ++ numErrorText P "ParseFloat" value e)
    | .ok v => .ok (usagePercent P v)
  | .requestsWaiting, value =>
    match atoi value with
    | .error e => .error ("parsing requests waiting: " ++ numErrorText P "Atoi" value e)
    | .ok v => .ok (Int32.ofInt v)

/-- A line as a write. -/
def write? (line : Text) : Option (Metric × Except String Int32) :=
  match fields line with
  | [name, value] =>
    if name = kvCacheName then some (.kvCacheUsage, Metric.read P .kvCacheUsage value)
    else if name = requestsWaitingName then
      some (.requestsWaiting, Metric.read P .requestsWaiting value)
    else none
  | _ => none

/-- The loop with both of its results: the source returns the zero `Metrics` beside an error. -/
def parseLoop (m : Metrics) : List Text → Metrics × Option String
  | [] => (m, none)
  | line :: rest =>
    match parseLine P m line with
    | .error err => ({}, some err)
    | .ok m' => parseLoop m' rest

/-- The pair that `parsePrometheusMetrics` returns. -/
def returned (text : Text) : Metrics × Option String := parseLoop P {} (lines text)

/-- The values, where there is no error. -/
def outcome (text : Text) : Option Metrics :=
  match returned P text with
  | (m, none) => some m
  | (_, some _) => none

/-- The value of the last sample, zero if there is none. -/
def lastValue (k : Metric) (text : Text) : Int32 :=
  match (samples k.name text).getLast? with
  | none => 0
  | some f =>
    match k.read P f with
    | .ok v => v
    | .error _ => 0

/-- One of the two names and a value. -/
def relevant (line : Text) : Bool :=
  match fields line with
  | [name, _] => name = kvCacheName ∨ name = requestsWaitingName
  | _ => false

/-- The value field of some relevant line fails to parse. -/
def Misread (text : Text) : Prop :=
  (∃ f ∈ samples kvCacheName text, ∃ e, parseFloat P f = .error e) ∨
    ∃ f ∈ samples requestsWaitingName text, ∃ e, atoi f = .error e

variable {P}

theorem parseLoop_eq (ls : List Text) (m : Metrics) : parseLoop P m ls =
    match ls.foldlM (parseLine P) m with
    | .ok m' => (m', none)
    | .error err => ({}, some err) := by
  induction ls generalizing m with
  | nil => rfl
  | cons l ls ih =>
    rw [parseLoop, List.foldlM_cons]
    cases parseLine P m l with
    | error err => rfl
    | ok m' => exact ih m'

theorem returned_eq (text : Text) : returned P text =
    match parsePrometheusMetrics P text with
    | .ok m => (m, none)
    | .error err => ({}, some err) :=
  parseLoop_eq _ _

theorem outcome_eq (text : Text) : outcome P text = (parsePrometheusMetrics P text).toOption := by
  rw [outcome, returned_eq]
  cases parsePrometheusMetrics P text with
  | error err => rfl
  | ok m => rfl

/-! ### The log -/

theorem Metrics.get_injective : Function.Injective Metrics.get := by
  rintro ⟨u, w⟩ ⟨u', w'⟩ h
  have hu : u = u' := congrFun h .kvCacheUsage
  have hw : w = w' := congrFun h .requestsWaiting
  rw [hu, hw]

theorem Metric.name_injective : Function.Injective Metric.name := by
  rintro (_ | _) (_ | _) h
  · rfl
  · exact absurd h.symm requestsWaitingName_ne
  · exact absurd h requestsWaitingName_ne
  · rfl

theorem write?_eq_some {line : Text} {k : Metric} {x : Except String Int32} :
    write? P line = some (k, x) ↔ ∃ f, fields line = [k.name, f] ∧ x = k.read P f := by
  constructor
  · intro h
    unfold write? at h
    split at h
    · next name value hf =>
      split_ifs at h with hk hr
      · cases h
        exact ⟨value, by rw [hf, hk]; rfl, rfl⟩
      · cases h
        exact ⟨value, by rw [hf, hr]; rfl, rfl⟩
    · cases h
  · rintro ⟨f, hf, rfl⟩
    unfold write?
    rw [hf]
    cases k with
    | kvCacheUsage => exact if_pos rfl
    | requestsWaiting => exact (if_neg requestsWaitingName_ne).trans (if_pos rfl)

theorem get_usage (m : Metrics) (u : Int32) :
    Metrics.get { m with kvCacheUsagePercent := u } =
      Function.update m.get .kvCacheUsage u := by
  funext k
  cases k <;> rfl

theorem get_waiting (m : Metrics) (w : Int32) :
    Metrics.get { m with numRequestsWaiting := w } =
      Function.update m.get .requestsWaiting w := by
  funext k
  cases k <;> rfl

/-- One turn of the loop is one write. -/
theorem parseLine_write (m : Metrics) (line : Text) : (parseLine P m line).map Metrics.get =
    match write? P line with
    | none => .ok m.get
    | some w => write m.get w := by
  unfold parseLine write?
  match fields line with
  | [] | [_] | _ :: _ :: _ :: _ => rfl
  | [name, value] =>
    by_cases hk : name = kvCacheName
    · simp only [if_pos hk, Metric.read]
      cases parseFloat P value with
      | error e => rfl
      | ok v => exact congrArg Except.ok (get_usage m _)
    · simp only [if_neg hk]
      by_cases hr : name = requestsWaitingName
      · simp only [if_pos hr, Metric.read]
        cases atoi value with
        | error e => rfl
        | ok v => exact congrArg Except.ok (get_waiting m _)
      · simp only [if_neg hr]
        rfl

theorem foldlM_replay (ls : List Text) (m : Metrics) :
    (ls.foldlM (parseLine P) m).map Metrics.get = replay m.get (ls.filterMap (write? P)) := by
  induction ls generalizing m with
  | nil => rfl
  | cons l ls ih =>
    have hline := parseLine_write (P := P) m l
    rw [List.foldlM_cons]
    cases hw : write? P l with
    | none =>
      rw [hw] at hline
      rw [List.filterMap_cons_none hw]
      cases hl : parseLine P m l with
      | error err =>
        rw [hl] at hline
        cases hline
      | ok m' =>
        rw [hl] at hline
        obtain rfl : m' = m := Metrics.get_injective (Except.ok.inj hline)
        exact ih m'
    | some w =>
      have hwrite : (parseLine P m l).map Metrics.get = write m.get w := by rw [hline, hw]
      rw [List.filterMap_cons_some hw, replay, List.foldlM_cons, ← hwrite]
      cases parseLine P m l with
      | error err => rfl
      | ok m' => exact ih m'

/-- The log of a text. -/
abbrev logOf (P : Platform) (text : Text) : List (Metric × Except String Int32) :=
  (lines text).filterMap (write? P)

theorem parse_replay (text : Text) : (parsePrometheusMetrics P text).map Metrics.get =
    replay (fun _ => 0) (logOf P text) := by
  have hzero : Metrics.get {} = fun _ => 0 := by
    funext k
    cases k <;> rfl
  rw [← hzero]
  exact foldlM_replay _ _

theorem slot_filterMap (k : Metric) (ls : List Text) : slot k (ls.filterMap (write? P)) =
    (ls.filterMap (sample? k.name)).map (k.read P) := by
  induction ls with
  | nil => rfl
  | cons l ls ih =>
    cases hs : sample? k.name l with
    | some f =>
      have hw : write? P l = some (k, k.read P f) :=
        write?_eq_some.mpr ⟨f, sample?_eq_some.mp hs, rfl⟩
      rw [List.filterMap_cons_some hs, List.filterMap_cons_some hw, slot_cons_self, ih,
        List.map_cons]
    | none =>
      rw [List.filterMap_cons_none hs]
      cases hw : write? P l with
      | none => rw [List.filterMap_cons_none hw, ih]
      | some w =>
        obtain ⟨j, x⟩ := w
        have hne : j ≠ k := by
          rintro rfl
          obtain ⟨f, hf, -⟩ := write?_eq_some.mp hw
          rw [sample?_eq_some.mpr hf] at hs
          cases hs
        rw [List.filterMap_cons_some hw, slot_cons_of_ne hne, ih]

theorem slot_logOf (k : Metric) (text : Text) :
    slot k (logOf P text) = (samples k.name text).map (k.read P) :=
  slot_filterMap k _

theorem last_logOf (k : Metric) (text : Text) :
    last (fun _ => 0) (logOf P text) k = lastValue P k text := by
  unfold last lastValue
  rw [slot_logOf, List.getLast?_map]
  cases (samples k.name text).getLast? with
  | none => rfl
  | some f =>
    simp only [Option.map_some]
    cases k.read P f with
    | error err => rfl
    | ok v => rfl

theorem valid_logOf (text : Text) :
    Valid (logOf P text) ↔ ∀ k : Metric, ∀ f ∈ samples k.name text, ∃ v, k.read P f = .ok v := by
  simp only [valid_iff_slots, slot_logOf, List.forall_mem_map]

theorem read_error_iff (k : Metric) (f : Text) : (¬ ∃ v, k.read P f = .ok v) ↔
    match k with
    | .kvCacheUsage => ∃ e, parseFloat P f = .error e
    | .requestsWaiting => ∃ e, atoi f = .error e := by
  cases k with
  | kvCacheUsage =>
    simp only [Metric.read]
    cases parseFloat P f <;> simp
  | requestsWaiting =>
    simp only [Metric.read]
    cases atoi f <;> simp

theorem misread_iff (text : Text) : Misread P text ↔ ¬ Valid (logOf P text) := by
  rw [valid_logOf]
  constructor
  · rintro (⟨f, hf, he⟩ | ⟨f, hf, he⟩) h
    · exact (read_error_iff .kvCacheUsage f).mpr he (h .kvCacheUsage f hf)
    · exact (read_error_iff .requestsWaiting f).mpr he (h .requestsWaiting f hf)
  · intro h
    push Not at h
    obtain ⟨k, f, hf, hv⟩ := h
    have he := (read_error_iff (P := P) k f).mp fun ⟨v, hok⟩ => hv v hok
    cases k with
    | kvCacheUsage => exact .inl ⟨f, hf, he⟩
    | requestsWaiting => exact .inr ⟨f, hf, he⟩

/-! ### The reference semantics -/

theorem returned_valid {text : Text} (h : Valid (logOf P text)) :
    ∃ m, returned P text = (m, none) ∧ ∀ k, m.get k = lastValue P k text := by
  have hlog := parse_replay (P := P) text
  rw [replay_ok h] at hlog
  cases hp : parsePrometheusMetrics P text with
  | error err =>
    rw [hp] at hlog
    cases hlog
  | ok m =>
    rw [hp] at hlog
    refine ⟨m, by rw [returned_eq, hp], fun k => ?_⟩
    rw [← last_logOf]
    exact congrFun (Except.ok.inj hlog) k

theorem returned_misread {text : Text} (h : ¬ Valid (logOf P text)) :
    ∃ err, returned P text = ({}, some err) := by
  have hlog := parse_replay (P := P) text
  obtain ⟨err', hreplay⟩ := replay_error (s := fun _ => (0 : Int32)) h
  rw [hreplay] at hlog
  cases hp : parsePrometheusMetrics P text with
  | error err => exact ⟨err, by rw [returned_eq, hp]⟩
  | ok m =>
    rw [hp] at hlog
    cases hlog

/-- No error exactly without a misread value. -/
theorem returned_none_iff (text : Text) : (returned P text).2 = none ↔ Valid (logOf P text) := by
  by_cases h : Valid (logOf P text)
  · obtain ⟨m, hm, -⟩ := returned_valid h
    rw [hm]
    exact iff_of_true rfl h
  · obtain ⟨err, he⟩ := returned_misread h
    rw [he]
    exact iff_of_false (fun h' => by cases h') h

theorem returned_get {text : Text} (h : (returned P text).2 = none) (k : Metric) :
    (returned P text).1.get k = lastValue P k text := by
  obtain ⟨m, hm, hget⟩ := returned_valid ((returned_none_iff text).mp h)
  rw [hm]
  exact hget k

theorem outcome_map_get (text : Text) :
    (outcome P text).map Metrics.get = (replay (fun _ => 0) (logOf P text)).toOption := by
  rw [outcome_eq, ← parse_replay]
  cases parsePrometheusMetrics P text with
  | error err => rfl
  | ok m => rfl

/-! ### The laws -/

variable {text text' : Text}

/-- **Only the samples of each name matter.** -/
theorem outcome_of_samples (h : ∀ k : Metric, samples k.name text = samples k.name text') :
    outcome P text = outcome P text' := by
  refine Option.map_injective Metrics.get_injective ?_
  rw [outcome_map_get, outcome_map_get]
  refine outcome_congr fun k => ?_
  rw [slot_logOf, slot_logOf, h]

theorem returned_append {a b : Text} (ha : (returned P a).2 = none) (hb : (returned P b).2 = none) :
    (returned P (a ++ newline :: b)).2 = none ∧ ∀ k, (returned P (a ++ newline :: b)).1.get k =
      if samples k.name b = [] then (returned P a).1.get k else (returned P b).1.get k := by
  have hlog : logOf P (a ++ newline :: b) = logOf P a ++ logOf P b := by
    rw [logOf, lines_append, List.filterMap_append]
  have hva := (returned_none_iff a).mp ha
  have hvb := (returned_none_iff b).mp hb
  have hok : (returned P (a ++ newline :: b)).2 = none := by
    rw [returned_none_iff, hlog]
    exact List.forall_mem_append.mpr ⟨hva, hvb⟩
  refine ⟨hok, fun k => ?_⟩
  rw [returned_get hok, returned_get ha, returned_get hb, ← last_logOf, hlog, last_append hvb,
    slot_logOf, last_logOf, last_logOf]
  simp only [List.map_eq_nil_iff]

theorem relevant_of_sample {k : Metric} {line f : Text} (h : sample? k.name line = some f) :
    relevant line := by
  unfold relevant
  rw [sample?_eq_some.mp h]
  cases k with
  | kvCacheUsage => exact decide_eq_true (.inl rfl)
  | requestsWaiting => exact decide_eq_true (.inr rfl)

theorem sample?_irrelevant {k : Metric} {line : Text} (h : ¬ relevant line) :
    sample? k.name line = none := by
  cases hs : sample? k.name line with
  | none => rfl
  | some f => exact absurd (relevant_of_sample hs) h

/-- The other lines may be added, removed or permuted. -/
theorem outcome_of_relevant (h : (lines text).filter relevant = (lines text').filter relevant) :
    outcome P text = outcome P text' := by
  have hfilter : ∀ (k : Metric) (ls : List Text),
      ls.filterMap (sample? k.name) = (ls.filter relevant).filterMap (sample? k.name) := by
    intro k ls
    induction ls with
    | nil => rfl
    | cons l ls ih =>
      by_cases hl : relevant l
      · rw [List.filter_cons_of_pos hl]
        simp only [List.filterMap_cons, ih]
      · rw [List.filter_cons_of_neg hl, List.filterMap_cons_none (sample?_irrelevant hl), ih]
  refine outcome_of_samples fun k => ?_
  rw [samples, samples, hfilter k (lines text), h, ← hfilter]

/-- A permutation of all lines changes no error. -/
theorem returned_perm (h : (lines text).Perm (lines text')) :
    (returned P text).2 = none ↔ (returned P text').2 = none := by
  have hmem : ∀ (k : Metric) (f : Text), f ∈ samples k.name text ↔ f ∈ samples k.name text' :=
    fun k f => (h.filterMap _).mem_iff
  rw [returned_none_iff, returned_none_iff, valid_logOf, valid_logOf]
  simp only [hmem]

/-- Two lines of different names may be exchanged over lines of neither. -/
theorem outcome_exchange {xs ys zs : List Text} {l l' f f' : Text} {j k : Metric}
    (h : lines text = xs ++ l :: (ys ++ l' :: zs)) (h' : lines text' = xs ++ l' :: (ys ++ l :: zs))
    (hl : fields l = [j.name, f]) (hl' : fields l' = [k.name, f']) (hjk : j ≠ k)
    (hys : ∀ y ∈ ys, ¬ relevant y) : outcome P text = outcome P text' := by
  refine outcome_of_samples fun i => ?_
  have hbetween : ys.filterMap (sample? i.name) = [] :=
    List.filterMap_eq_nil_iff.mpr fun y hy => sample?_irrelevant (hys y hy)
  have hother : ∀ {m : Metric} {line g : Text}, fields line = [m.name, g] → m ≠ i →
      sample? i.name line = none := by
    intro m line g hline hm
    unfold sample?
    rw [hline]
    exact if_neg fun heq => hm (Metric.name_injective heq)
  rw [samples, samples, h, h']
  simp only [List.filterMap_append, List.filterMap_cons, hbetween, List.nil_append]
  -- at most one of the two is a sample of this name
  by_cases hj : j = i
  · rw [hother hl' fun hk => hjk (hj.trans hk.symm)]
  · rw [hother hl hj]

/-- The white space around the fields does not matter. -/
theorem outcome_respaced (h : List.Forall₂ Respaced (lines text) (lines text')) :
    outcome P text = outcome P text' := by
  have hsamples : ∀ (k : Metric) {ls ls' : List Text}, List.Forall₂ Respaced ls ls' →
      ls.filterMap (sample? k.name) = ls'.filterMap (sample? k.name) := by
    intro k ls ls' hls
    induction hls with
    | nil => rfl
    | cons hl _ ih =>
      have hsample : ∀ {l l' : Text}, Respaced l l' → sample? k.name l = sample? k.name l' := by
        intro l l' hl
        unfold sample?
        rw [respaced_iff.mp hl]
      simp only [List.filterMap_cons, hsample hl, ih]
  exact outcome_of_samples fun k => hsamples k h

theorem outcome_crlf (text : Text) : outcome P (crlf text) = outcome P text :=
  (outcome_respaced (respaced_crlf text)).symm

/-- **The reference semantics**: the errors, the values, and what changes of the text leave both. -/
theorem reference_semantics (P : Platform) :
    (∀ text, ((returned P text).2 ≠ none ↔ Misread P text) ∧
      ((returned P text).2 ≠ none → (returned P text).1 = {}) ∧
      ((returned P text).2 = none → ∀ k, (returned P text).1.get k = lastValue P k text)) ∧
    (∀ a b, (returned P a).2 = none → (returned P b).2 = none →
      (returned P (a ++ newline :: b)).2 = none ∧ ∀ k, (returned P (a ++ newline :: b)).1.get k =
        if samples k.name b = [] then (returned P a).1.get k else (returned P b).1.get k) ∧
    (∀ text text', (lines text).filter relevant = (lines text').filter relevant →
      outcome P text = outcome P text') ∧
    (∀ text text', (lines text).Perm (lines text') →
      ((returned P text).2 = none ↔ (returned P text').2 = none)) ∧
    (∀ text text' xs ys zs l l' f f' (j k : Metric), lines text = xs ++ l :: (ys ++ l' :: zs) →
      lines text' = xs ++ l' :: (ys ++ l :: zs) → fields l = [j.name, f] →
      fields l' = [k.name, f'] → j ≠ k → (∀ y ∈ ys, ¬ relevant y) →
      outcome P text = outcome P text') ∧
    (∀ text, outcome P (crlf text) = outcome P text) ∧
    (∀ text text', List.Forall₂ Respaced (lines text) (lines text') →
      outcome P text = outcome P text') := by
  refine ⟨fun text => ⟨?_, ?_, fun h => returned_get h⟩, fun a b => returned_append,
    fun text text' => outcome_of_relevant, fun text text' => returned_perm, ?_, outcome_crlf,
    fun text text' => outcome_respaced⟩
  · rw [misread_iff, not_iff_not]
    exact returned_none_iff text
  · intro h
    obtain ⟨err, herr⟩ := returned_misread fun hv => h ((returned_none_iff text).mpr hv)
    rw [herr]
  · intro text text' xs ys zs l l' f f' j k h h' hl hl' hjk hys
    exact outcome_exchange h h' hl hl' hjk hys

/-- A full cache, then three requests waiting. -/
theorem reference_semantics_sample :
    (returned ⟨.exact, fun _ => 0, fun _ => true⟩
      (lit "vllm_kv_cache_usage_perc 1" ++ newline :: lit "vllm_num_requests_waiting 3")) =
      ({ kvCacheUsagePercent := 100, numRequestsWaiting := 3 }, none) := by
  have ha : returned ⟨.exact, fun _ => 0, fun _ => true⟩ (lit "vllm_kv_cache_usage_perc 1") =
      ({ kvCacheUsagePercent := 100 }, none) := by decide +kernel
  have hb : returned ⟨.exact, fun _ => 0, fun _ => true⟩ (lit "vllm_num_requests_waiting 3") =
      ({ numRequestsWaiting := 3 }, none) := by decide +kernel
  obtain ⟨hok, hget⟩ := (reference_semantics ⟨.exact, fun _ => 0, fun _ => true⟩).2.1
    (lit "vllm_kv_cache_usage_perc 1") (lit "vllm_num_requests_waiting 3") (by rw [ha]) (by rw [hb])
  refine Prod.ext (Metrics.get_injective (funext fun k => ?_)) hok
  rw [hget, ha, hb]
  cases k with
  | kvCacheUsage => exact if_pos (by decide +kernel)
  | requestsWaiting => exact if_neg (by decide +kernel)

/-- Exchanged over another sample, the first usage comes last. -/
theorem exchange_over_sample :
    ¬ ∀ (P : Platform) (text text' l l' f f' : Text) (xs ys zs : List Text) (j k : Metric),
      lines text = xs ++ l :: (ys ++ l' :: zs) → lines text' = xs ++ l' :: (ys ++ l :: zs) →
      fields l = [j.name, f] → fields l' = [k.name, f'] → j ≠ k →
      outcome P text = outcome P text' := by
  intro h
  have hidle : newline ∉ lit "vllm_kv_cache_usage_perc 0" := by decide +kernel
  have hfull : newline ∉ lit "vllm_kv_cache_usage_perc 1" := by decide +kernel
  have hqueue : newline ∉ lit "vllm_num_requests_waiting 3" := by decide +kernel
  have hlines : ∀ l₁ l₂ l₃ : Text, newline ∉ l₁ → newline ∉ l₂ → newline ∉ l₃ →
      lines (unlines [l₁, l₂, l₃]) = [l₁, l₂, l₃] := by
    intro l₁ l₂ l₃ h₁ h₂ h₃
    refine lines_unlines (List.cons_ne_nil _ _) ?_
    simp only [List.forall_mem_cons, List.not_mem_nil, false_imp_iff, implies_true, and_true]
    exact ⟨h₁, h₂, h₃⟩
  have heq := h ⟨.exact, fun _ => 0, fun _ => true⟩ _ _
    (lit "vllm_kv_cache_usage_perc 0") (lit "vllm_num_requests_waiting 3") (lit "0") (lit "3") []
    [lit "vllm_kv_cache_usage_perc 1"] [] .kvCacheUsage .requestsWaiting
    (hlines _ _ _ hidle hfull hqueue) (hlines _ _ _ hqueue hfull hidle) (by decide +kernel)
    (by decide +kernel) (by decide)
  rw [outcome_eq, outcome_eq, parsePrometheusMetrics, parsePrometheusMetrics,
    hlines _ _ _ hidle hfull hqueue, hlines _ _ _ hqueue hfull hidle] at heq
  exact absurd heq (by decide +kernel)

end InfraDemo.Operator
