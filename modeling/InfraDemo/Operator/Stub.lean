import InfraDemo.Go.Layout
import InfraDemo.Operator.Metrics

/-!
# Stub — the metrics stub, and what the parser makes of its values

`app.py` of the local test keeps two numbers, which `POST /set` changes (`setMetrics`) and
`GET /metrics` prints (`metrics`).  Python's integers have no bound, `Atoi` reads 64 bits and the field
has 32, so there are integers that the parser changes without an error (`agrees_iff`).
-/

namespace InfraDemo.Operator

open InfraDemo.Go

/-! ### The stub -/

/-- The in-memory `state`. -/
structure StubState where
  kvCacheUsagePerc : Float64
  numRequestsWaiting : ℤ

/-- The float64 of 0.45, and no requests. -/
def initialState (P : Platform) : StubState := ⟨.finite (P.unit.nearest (9 / 20)), 0⟩

/-- The values of a request to `/set`: a key is missing, or `float()` or `int()` raises on its value, or
converts it. -/
structure SetData where
  kv : Option (Except String Float64)
  requests : Option (Except String ℤ)

def setKv (state : StubState) : Option (Except String Float64) → Except String StubState
  | none => .ok state
  | some (.error err) => .error err
  | some (.ok v) => .ok { state with kvCacheUsagePerc := v }

def setRequests (state : StubState) : Option (Except String ℤ) → Except String StubState
  | none => .ok state
  | some (.error err) => .error err
  | some (.ok n) => .ok { state with numRequestsWaiting := n }

/-- `set_metrics`: the state it leaves, and the state it answers with.  An exception in the second
conversion leaves the first assignment done. -/
def setMetrics (state : StubState) (data : SetData) : StubState × Except String StubState :=
  match setKv state data.kv with
  | .error err => (state, .error err)
  | .ok state =>
    match setRequests state data.requests with
    | .error err => (state, .error err)
    | .ok state => (state, .ok state)

/-- The states that requests to `/set` lead to. -/
inductive Produced (P : Platform) : StubState → Prop where
  | initial : Produced P (initialState P)
  | set {state : StubState} (h : Produced P state) (data : SetData) :
      Produced P (setMetrics state data).1

/-- One request can set any two numbers. -/
theorem produced (P : Platform) (state : StubState) : Produced P state :=
  .set .initial ⟨some (.ok state.kvCacheUsagePerc), some (.ok state.numRequestsWaiting)⟩

/-- `metrics`, with Python's text of a float as a parameter. -/
def metrics (repr : Float64 → List Char) (state : StubState) : Text :=
  lit "vllm_kv_cache_usage_perc " ++ runes (repr state.kvCacheUsagePerc) ++ newline ::
    (lit "vllm_num_requests_waiting " ++ lit (toString state.numRequestsWaiting) ++ [newline])

/-! ### Its text read by the parser -/

/-- `repr` prints `k` without white space, and `ParseFloat` reads it back. -/
structure Prints (P : Platform) (repr : Float64 → List Char) (k : ℚ) : Prop where
  solid : ∀ c ∈ repr (.finite k), isSpaceChar c = false
  read : parseFloat P (runes (repr (.finite k))) = .ok (.finite k)

/-- The same of any float: Python's `inf` and `nan` are read back, too. -/
structure Shown (P : Platform) (repr : Float64 → List Char) (v : Float64) : Prop where
  solid : ∀ c ∈ repr v, isSpaceChar c = false
  read : parseFloat P (runes (repr v)) = .ok v

variable {P : Platform} {repr : Float64 → List Char} {k : ℚ} {state : StubState}

theorem Prints.shown (h : Prints P repr k) : Shown P repr (.finite k) := ⟨h.solid, h.read⟩

theorem solid_runes {cs : List Char} (h : ∀ c ∈ cs, isSpaceChar c = false) :
    ∀ r ∈ runes cs, Rune.isSpace r = false := by
  intro r hr
  obtain ⟨c, hc, rfl⟩ := List.mem_map.mp hr
  exact h c hc

theorem newline_notMem_solid {t : Text} (h : ∀ r ∈ t, Rune.isSpace r = false) : newline ∉ t :=
  fun hmem => absurd (h newline hmem) (by decide)

/-- A name, a space and a value. -/
theorem fields_metric {name value : Text} (hn : name ≠ [])
    (hname : ∀ r ∈ name, Rune.isSpace r = false)
    (hv : value ≠ []) (hvalue : ∀ r ∈ value, Rune.isSpace r = false) :
    fields (name ++ .char ' ' :: value) = [name, value] := by
  rw [fields_append_cons name value (by decide), fields_solid hn hname, fields_solid hv hvalue]
  rfl

theorem kvCacheName_solid : ∀ r ∈ kvCacheName, Rune.isSpace r = false := by decide +kernel

theorem requestsWaitingName_solid : ∀ r ∈ requestsWaitingName, Rune.isSpace r = false := by
  decide +kernel

/-- The first line of `metrics`. -/
def kvLine (value : List Char) : Text := kvCacheName ++ .char ' ' :: runes value

/-- The second line. -/
def waitingLine (n : ℤ) : Text := requestsWaitingName ++ .char ' ' :: lit (toString n)

theorem newline_notMem_line {name value : Text} (hname : ∀ r ∈ name, Rune.isSpace r = false)
    (hvalue : ∀ r ∈ value, Rune.isSpace r = false) : newline ∉ name ++ .char ' ' :: value := by
  intro hmem
  rcases List.mem_append.mp hmem with h | h
  · exact newline_notMem_solid hname h
  · rcases List.mem_cons.mp h with h | h
    · exact absurd h (by decide)
    · exact newline_notMem_solid hvalue h

/-- Two lines, and the empty one after them. -/
theorem lines_metrics (hsolid : ∀ c ∈ repr state.kvCacheUsagePerc, isSpaceChar c = false) :
    lines (metrics repr state) =
      [kvLine (repr state.kvCacheUsagePerc), waitingLine state.numRequestsWaiting, []] := by
  have hbody : metrics repr state =
      unlines [kvLine (repr state.kvCacheUsagePerc), waitingLine state.numRequestsWaiting, []] := by
    have hkv : lit "vllm_kv_cache_usage_perc " = kvCacheName ++ [.char ' '] := by decide +kernel
    have hwaiting : lit "vllm_num_requests_waiting " = requestsWaitingName ++ [.char ' '] := by
      decide +kernel
    simp [metrics, unlines, kvLine, waitingLine, hkv, hwaiting, List.intercalate]
  rw [hbody]
  refine lines_unlines (by simp) ?_
  rintro l hl
  rcases List.mem_cons.mp hl with rfl | hl
  · exact newline_notMem_line kvCacheName_solid (solid_runes hsolid)
  rcases List.mem_cons.mp hl with rfl | hl
  · exact newline_notMem_line requestsWaitingName_solid (solid_runes (toString_int_solid _))
  · obtain rfl := List.mem_singleton.mp hl
    exact List.not_mem_nil

/-- **What the parser makes of the stub's text.** -/
theorem parse_metrics (hrepr : Shown P repr state.kvCacheUsagePerc) :
    parsePrometheusMetrics P (metrics repr state) =
      match atoi (lit (toString state.numRequestsWaiting)) with
      | .error e => .error ("parsing requests waiting: " ++
          numErrorText P "Atoi" (lit (toString state.numRequestsWaiting)) e)
      | .ok v => .ok ⟨usagePercent P state.kvCacheUsagePerc, Int32.ofInt v⟩ := by
  have hvalue : runes (repr state.kvCacheUsagePerc) ≠ [] := by
    intro h
    have hread := hrepr.read
    rw [h] at hread
    cases hread
  have hkvFields : fields (kvLine (repr state.kvCacheUsagePerc)) =
      [kvCacheName, runes (repr state.kvCacheUsagePerc)] :=
    fields_metric (by decide +kernel) kvCacheName_solid hvalue (solid_runes hrepr.solid)
  have hwaitingFields : fields (waitingLine state.numRequestsWaiting) =
      [requestsWaitingName, lit (toString state.numRequestsWaiting)] :=
    fields_metric (by decide +kernel) requestsWaitingName_solid
      (fun h => toString_int_ne_nil _ (List.map_eq_nil_iff.mp h))
      (solid_runes (toString_int_solid _))
  have hlast : ∀ m, parseLine P m [] = .ok m := fun m => rfl
  rw [parsePrometheusMetrics, lines_metrics hrepr.solid]
  simp only [List.foldlM_cons, List.foldlM_nil, parseLine, hkvFields, hwaitingFields, hrepr.read,
    if_true, if_neg requestsWaitingName_ne]
  cases atoi (lit (toString state.numRequestsWaiting)) with
  | error e => rfl
  | ok v => rfl

/-- An error, or the numbers of the stub. -/
def Agrees (P : Platform) (repr : Float64 → List Char) (state : StubState) (k : ℚ) : Prop :=
  ∀ m, parsePrometheusMetrics P (metrics repr state) = .ok m →
    m.kvCacheUsagePercent.toInt = truncate (100 * k) ∧
      m.numRequestsWaiting.toInt = state.numRequestsWaiting

theorem toInt_ofInt_eq_iff (n : ℤ) : (Int32.ofInt n).toInt = n ↔ -2 ^ 31 ≤ n ∧ n < 2 ^ 31 := by
  constructor
  · intro h
    rw [← h]
    exact ⟨Int32.le_toInt _, Int32.toInt_lt _⟩
  · rintro ⟨hlow, hhigh⟩
    exact Int32.toInt_ofInt_of_le hlow hhigh

/-- **When the two agree**: the field holds the number, or `Atoi` does not. -/
theorem agrees_iff (hkv : state.kvCacheUsagePerc = .finite k)
    (hk : |100 * k| < 2 ^ 31) (hrepr : Prints P repr k) (hmul : P.unit.mul k 100 = k * 100) :
    Agrees P repr state k ↔
      (-2 ^ 31 ≤ state.numRequestsWaiting ∧ state.numRequestsWaiting < 2 ^ 31) ∨
        ¬ (-2 ^ 63 ≤ state.numRequestsWaiting ∧ state.numRequestsWaiting < 2 ^ 63) := by
  unfold Agrees
  rw [parse_metrics (by rw [hkv]; exact hrepr.shown), atoi_toString, hkv]
  by_cases hfit : -2 ^ 63 ≤ state.numRequestsWaiting ∧ state.numRequestsWaiting < 2 ^ 63
  · rw [if_pos hfit, or_iff_left (not_not.mpr hfit), ← toInt_ofInt_eq_iff]
    constructor
    · intro h
      exact (h _ rfl).2
    · rintro hwaiting m hm
      cases hm
      exact ⟨usagePercent_exact P hmul hk, hwaiting⟩
  · rw [if_neg hfit]
    exact iff_of_true (fun m hm => by cases hm) (.inr hfit)

/-- The platform of the examples, and a text for one half. -/
theorem prints_half : Prints ⟨.exact, fun _ => 0, fun _ => true⟩ (fun _ => "0.5".toList) (1 / 2) where
  solid c hc := by
    have hall : "0.5".toList.all (fun c => !isSpaceChar c) = true := by decide +kernel
    exact (Bool.not_eq_true' _).mp (List.all_eq_true.mp hall c hc)
  read := by
    have hspecial : special? "0.5".toList = none := by decide +kernel
    have hvalue : literalValue? "0.5".toList = some (1 / 2) := by decide +kernel
    exact parseFloat_of_abs_le hspecial hvalue (by norm_num [abs_of_pos])

theorem agrees_iff_half :
    Agrees ⟨.exact, fun _ => 0, fun _ => true⟩ (fun _ => "0.5".toList) ⟨.finite (1 / 2), 3⟩ (1 / 2) ↔
      (-2 ^ 31 ≤ (3 : ℤ) ∧ (3 : ℤ) < 2 ^ 31) ∨ ¬ (-2 ^ 63 ≤ (3 : ℤ) ∧ (3 : ℤ) < 2 ^ 63) :=
  agrees_iff rfl (by norm_num) prints_half (by norm_num [FloatUnit.exact])

/-- Of 2147483648 requests the parser makes -2147483648. -/
theorem large_count_wraps :
    ¬ ∀ (P : Platform) (repr : Float64 → List Char) (k : ℚ) (state : StubState),
      Produced P state → state.kvCacheUsagePerc = .finite k → |100 * k| < 2 ^ 31 →
      Prints P repr k → P.unit.mul k 100 = k * 100 → Agrees P repr state k := by
  intro h
  have hkv : (StubState.mk (.finite (1 / 2)) 2147483648).kvCacheUsagePerc = .finite (1 / 2) := rfl
  have hagrees := h ⟨.exact, fun _ => 0, fun _ => true⟩ (fun _ => "0.5".toList) (1 / 2)
    ⟨.finite (1 / 2), 2147483648⟩ (produced _ _) hkv (by norm_num) prints_half
    (by norm_num [FloatUnit.exact])
  have hparse : parsePrometheusMetrics _ (metrics _ ⟨.finite (1 / 2), 2147483648⟩) = _ :=
    parse_metrics prints_half.shown
  rw [atoi_toString] at hparse
  exact absurd (hagrees _ hparse).2 (by decide +kernel)

end InfraDemo.Operator
