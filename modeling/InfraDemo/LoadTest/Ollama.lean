import Mathlib.Tactic.Linarith
import Mathlib.Tactic.Positivity
import InfraDemo.Python.Builtins

/-!
# Ollama — the two measurements of one stream

`single_request` of `load_test_ollama.py` and `run_inference` of `measure_inference_ollama.py`, from the
lines of the response on (decoded).  `json.loads` is a parameter, and `clock i` is what the call number
`i` of `time.perf_counter` returns.
-/

namespace InfraDemo.LoadTest.Ollama

open Python

variable (loads : List Char → Option Json) (clock : ℕ → ℚ)

/-! ### load_test_ollama.py -/

/-- The variables of the loop of `single_request`, and the number of clock readings so far. -/
structure Single where
  tFirst : Option ℚ := none
  tokenCount : ℕ := 0
  tDone : Option ℚ := none
  reads : ℕ := 1

def Single.line (s : Single) (rawLine : List Char) : Option Single :=
  let line := strip rawLine
  if line = [] then some s
  else do
    let chunk ← loads line
    let now := clock s.reads
    let done ← chunk.get "done" (.bool false)
    if done.truthy then some { s with tDone := some now, reads := s.reads + 1 }
    else do
      let response ← chunk.get "response" .null
      some { s with
        tFirst := if response.truthy ∧ s.tFirst = none then some now else s.tFirst
        tokenCount := s.tokenCount + 1
        reads := s.reads + 1 }

structure SingleResult where
  ttftMs : ℚ
  totalS : ℚ
  tokens : ℕ
  tps : ℚ

/-- What follows the loop; `t_done` may be unbound, and the division by zero. -/
def Single.finish (s : Single) (t0 : ℚ) : Option SingleResult := do
  let tDone ← s.tDone
  let tFirst := orTime s.tFirst tDone
  if tDone - t0 = 0 then none
  else
    some
      { ttftMs := roundTo ((tFirst - t0) * 1000) 1
        totalS := roundTo (tDone - t0) 2
        tokens := s.tokenCount
        tps := roundTo (s.tokenCount / (tDone - t0)) 1 }

def singleRequest (lines : List (List Char)) : Option SingleResult := do
  let s ← lines.foldlM (Single.line loads clock) {}
  s.finish (clock 0)

/-! ### measure_inference_ollama.py -/

/-- The variables of the loop of `run_inference`, and the number of clock readings so far. -/
structure Measure where
  tFirstToken : Option ℚ := none
  tokenTimes : List ℚ := []
  fullResponse : List Json := []
  tDone : Option ℚ := none
  reads : ℕ := 1

def Measure.line (m : Measure) (rawLine : List Char) : Option Measure :=
  let line := strip rawLine
  if line = [] then some m
  else do
    let chunk ← loads line
    let now := clock m.reads
    let done ← chunk.get "done" (.bool false)
    if done.truthy then some { m with tDone := some now, reads := m.reads + 1 }
    else do
      let tokenText ← chunk.get "response" (.str [])
      if tokenText.truthy then
        some { m with
          tFirstToken := m.tFirstToken.or (some now)
          tokenTimes := m.tokenTimes ++ [now]
          fullResponse := m.fullResponse ++ [tokenText]
          reads := m.reads + 1 }
      else some { m with reads := m.reads + 1 }

structure MeasureResult where
  ttftMs : ℚ
  tpotMs : ℚ
  throughputTps : ℚ
  totalTokens : ℕ
  responsePreview : List Char

def Measure.finish (m : Measure) (tRequestSent : ℚ) : Option MeasureResult := do
  let tDone ← m.tDone
  let tFirstToken := orTime m.tFirstToken tDone
  let totalTokens := m.tokenTimes.length
  let totalGeneration := if 1 < totalTokens then tDone - tFirstToken else 0
  let tpot := if 1 < totalTokens then totalGeneration / (totalTokens - 1) * 1000 else 0
  let response ← Json.join m.fullResponse
  if tDone - tRequestSent = 0 then none
  else
    some
      { ttftMs := roundTo ((tFirstToken - tRequestSent) * 1000) 1
        tpotMs := roundTo tpot 1
        throughputTps := roundTo (totalTokens / (tDone - tRequestSent)) 1
        totalTokens
        responsePreview := response.take 120 ++ "...".toList }

def runInference (lines : List (List Char)) : Option MeasureResult := do
  let m ← lines.foldlM (Measure.line loads clock) {}
  m.finish (clock 0)

/-! ### The chunks of a stream -/

/-- A chunk, by what the two scripts ask of it. -/
inductive Kind where
  | final
  | token (text : List Char)
  deriving DecidableEq

/-- The text of a response, empty where there is none. -/
def responseText? (fields : List (String × Json)) : Option (List Char) :=
  match fields.lookup "response" with
  | none | some .null => some []
  | some (.str text) => some text
  | some _ => none

/-- The chunks of a stream: objects with `done` true, or without it and with a text, if any. -/
def kind? : Json → Option Kind
  | .obj fields =>
    match fields.lookup "done" with
    | some (.bool true) => some .final
    | none | some (.bool false) => (responseText? fields).map .token
    | some _ => none
  | _ => none

/-- The chunk on a line that is not blank. -/
def lineKind? (rawLine : List Char) : Option Kind := (loads (strip rawLine)).bind kind?

/-- The chunks of the lines. -/
def kinds (lines : List (List Char)) : List Kind :=
  (lines.filter fun rawLine => strip rawLine ≠ []).filterMap (lineKind? loads)

/-- Every line is blank or a chunk, and one is final. -/
structure IsStream (lines : List (List Char)) : Prop where
  chunks : ∀ rawLine ∈ lines, strip rawLine ≠ [] → (lineKind? loads rawLine).isSome
  final : (kinds loads lines).count .final = 1

/-- The same numbers of tokens, times to the first token and tokens per second, or both raise. -/
def Agree (lines : List (List Char)) : Prop :=
  (singleRequest loads clock lines).map (fun r => (r.tokens, r.ttftMs, r.tps)) =
    (runInference loads clock lines).map fun r => (r.totalTokens, r.ttftMs, r.throughputTps)

variable {loads clock} {s : Single} {m : Measure} {chunk : Json} {rawLine text : List Char}
  {lines : List (List Char)} {ks : List Kind}

/-! ### One line -/

theorem kind_final (h : kind? chunk = some .final) :
    chunk.get "done" (.bool false) = some (.bool true) := by
  unfold kind? at h
  split at h
  · next fields =>
    rw [Json.get_obj]
    split at h
    · next hdone => rw [hdone, Option.getD_some]
    · obtain ⟨text, -, htext⟩ := Option.map_eq_some_iff.mp h
      cases htext
    · obtain ⟨text, -, htext⟩ := Option.map_eq_some_iff.mp h
      cases htext
    · cases h
  · cases h

theorem kind_token (h : kind? chunk = some (.token text)) :
    chunk.get "done" (.bool false) = some (.bool false) ∧
      ∃ fields, chunk = .obj fields ∧ responseText? fields = some text := by
  unfold kind? at h
  split at h
  · next fields =>
    rw [Json.get_obj]
    have htext : ∀ {r : Option (List Char)},
        r.map Kind.token = some (.token text) → r = some text := by
      intro r hr
      obtain ⟨t, rfl, ht⟩ := Option.map_eq_some_iff.mp hr
      cases ht
      rfl
    split at h
    · cases h
    · next hdone => exact ⟨by rw [hdone]; rfl, fields, rfl, htext h⟩
    · next hdone => exact ⟨by rw [hdone]; rfl, fields, rfl, htext h⟩
    · cases h
  · cases h

/-- The value that a script finds is true exactly if there is a text, and then it is the text. -/
theorem response_get {fields : List (String × Json)} (h : responseText? fields = some text)
    (default : Json) (hdefault : default.truthy = false) : ∃ response,
      (Json.obj fields).get "response" default = some response ∧
        response.truthy = decide (text ≠ []) ∧ (text ≠ [] → response = .str text) := by
  refine ⟨_, Json.get_obj _ _ _, ?_⟩
  unfold responseText? at h
  split at h
  · next hnone =>
    obtain rfl := Option.some_inj.mp h
    rw [hnone, Option.getD_none]
    exact ⟨hdefault, fun hne => absurd rfl hne⟩
  · next hnull =>
    obtain rfl := Option.some_inj.mp h
    rw [hnull, Option.getD_some]
    exact ⟨rfl, fun hne => absurd rfl hne⟩
  · next t hstr =>
    obtain rfl := Option.some_inj.mp h
    rw [hstr, Option.getD_some]
    refine ⟨?_, fun _ => rfl⟩
    cases t <;> rfl
  · cases h

theorem single_final (hline : strip rawLine ≠ []) (h : lineKind? loads rawLine = some .final) :
    s.line loads clock rawLine =
      some { s with tDone := some (clock s.reads), reads := s.reads + 1 } := by
  obtain ⟨chunk, hloads, hkind⟩ := Option.bind_eq_some_iff.mp h
  unfold Single.line
  simp only [if_neg hline, Option.bind_eq_bind, hloads, kind_final hkind, Option.bind_some,
    Json.truthy_bool, if_true]

theorem single_token (hline : strip rawLine ≠ [])
    (h : lineKind? loads rawLine = some (.token text)) : s.line loads clock rawLine =
      some { s with
        tFirst := if text ≠ [] ∧ s.tFirst = none then some (clock s.reads) else s.tFirst
        tokenCount := s.tokenCount + 1
        reads := s.reads + 1 } := by
  obtain ⟨chunk, hloads, hkind⟩ := Option.bind_eq_some_iff.mp h
  obtain ⟨hdone, fields, rfl, htext⟩ := kind_token hkind
  obtain ⟨response, hget, htruthy, -⟩ := response_get htext .null rfl
  unfold Single.line
  simp only [if_neg hline, Option.bind_eq_bind, hloads, hdone, hget, htruthy, Option.bind_some,
    Json.truthy_bool, Bool.false_eq_true, if_false, decide_eq_true_eq]

theorem measure_final (hline : strip rawLine ≠ []) (h : lineKind? loads rawLine = some .final) :
    m.line loads clock rawLine =
      some { m with tDone := some (clock m.reads), reads := m.reads + 1 } := by
  obtain ⟨chunk, hloads, hkind⟩ := Option.bind_eq_some_iff.mp h
  unfold Measure.line
  simp only [if_neg hline, Option.bind_eq_bind, hloads, kind_final hkind, Option.bind_some,
    Json.truthy_bool, if_true]

theorem measure_token (hline : strip rawLine ≠ [])
    (h : lineKind? loads rawLine = some (.token text)) : m.line loads clock rawLine =
      some (if text = [] then { m with reads := m.reads + 1 } else
        { m with
          tFirstToken := m.tFirstToken.or (some (clock m.reads))
          tokenTimes := m.tokenTimes ++ [clock m.reads]
          fullResponse := m.fullResponse ++ [.str text]
          reads := m.reads + 1 }) := by
  obtain ⟨chunk, hloads, hkind⟩ := Option.bind_eq_some_iff.mp h
  obtain ⟨hdone, fields, rfl, htext⟩ := kind_token hkind
  obtain ⟨response, hget, htruthy, hresponse⟩ := response_get htext (.str []) rfl
  unfold Measure.line
  simp only [if_neg hline, Option.bind_eq_bind, hloads, hdone, hget, htruthy, Option.bind_some,
    Json.truthy_bool, Bool.false_eq_true, if_false, decide_eq_true_eq]
  by_cases hnil : text = []
  · rw [if_neg (not_not.mpr hnil), if_pos hnil]
  · rw [if_pos hnil, if_neg hnil, hresponse hnil]

/-! ### Both loops -/

def Kind.isToken : Kind → Bool
  | .final => false
  | .token _ => true

def Kind.hasText : Kind → Bool
  | .final => false
  | .token text => text ≠ []

/-- The time of the final chunk. -/
def endTime (clock : ℕ → ℚ) (ks : List Kind) : Option ℚ :=
  (ks.findIdx? fun k => k = .final).map fun i => clock (i + 1)

/-- The two loops after the same chunks: they agree but in what they count. -/
structure Books (clock : ℕ → ℚ) (ks : List Kind) (s : Single) (m : Measure) : Prop where
  first : s.tFirst = m.tFirstToken
  tokens : s.tokenCount = ks.countP Kind.isToken
  times : m.tokenTimes.length = ks.countP Kind.hasText
  response : ∃ texts : List (List Char), m.fullResponse = texts.map Json.str
  singleDone : s.tDone = endTime clock ks
  measureDone : m.tDone = endTime clock ks
  singleReads : s.reads = ks.length + 1
  measureReads : m.reads = ks.length + 1

theorem books_nil : Books clock [] {} {} := ⟨rfl, rfl, rfl, ⟨[], rfl⟩, rfl, rfl, rfl, rfl⟩

theorem endTime_token (ks : List Kind) (text : List Char) :
    endTime clock (ks ++ [.token text]) = endTime clock ks := by
  unfold endTime
  rw [List.findIdx?_append]
  simp

theorem endTime_final {ks : List Kind} (h : .final ∉ ks) :
    endTime clock (ks ++ [.final]) = some (clock (ks.length + 1)) := by
  have hnone : ks.findIdx? (fun k => k = .final) = none :=
    List.findIdx?_eq_none_iff.mpr fun k hk => decide_eq_false fun hfinal => h (hfinal ▸ hk)
  unfold endTime
  rw [List.findIdx?_append, hnone]
  simp

theorem books_final (h : Books clock ks s m) (hno : .final ∉ ks) :
    Books clock (ks ++ [.final]) { s with tDone := some (clock s.reads), reads := s.reads + 1 }
      { m with tDone := some (clock m.reads), reads := m.reads + 1 } := by
  have hlen : (ks ++ [Kind.final]).length = ks.length + 1 := List.length_append
  refine ⟨h.first, ?_, ?_, h.response, ?_, ?_, ?_, ?_⟩
  · rw [List.countP_append]
    exact h.tokens
  · rw [List.countP_append]
    exact h.times
  · rw [endTime_final hno, ← h.singleReads]
  · rw [endTime_final hno, ← h.measureReads]
  · rw [hlen]
    exact congrArg (· + 1) h.singleReads
  · rw [hlen]
    exact congrArg (· + 1) h.measureReads

theorem books_token (h : Books clock ks s m) (text : List Char) :
    Books clock (ks ++ [.token text])
      { s with
        tFirst := if text ≠ [] ∧ s.tFirst = none then some (clock s.reads) else s.tFirst
        tokenCount := s.tokenCount + 1
        reads := s.reads + 1 }
      (if text = [] then { m with reads := m.reads + 1 } else
        { m with
          tFirstToken := m.tFirstToken.or (some (clock m.reads))
          tokenTimes := m.tokenTimes ++ [clock m.reads]
          fullResponse := m.fullResponse ++ [.str text]
          reads := m.reads + 1 }) := by
  have hlen : (ks ++ [Kind.token text]).length = ks.length + 1 := List.length_append
  have hcount : (ks ++ [Kind.token text]).countP Kind.isToken = s.tokenCount + 1 := by
    rw [List.countP_append, h.tokens]
    rfl
  have hsingle : s.reads + 1 = (ks ++ [Kind.token text]).length + 1 := by
    rw [hlen]
    exact congrArg (· + 1) h.singleReads
  have hmeasure : m.reads + 1 = (ks ++ [Kind.token text]).length + 1 := by
    rw [hlen]
    exact congrArg (· + 1) h.measureReads
  have hend : endTime clock (ks ++ [.token text]) = endTime clock ks := endTime_token ks text
  by_cases hnil : text = []
  · rw [if_pos hnil, if_neg fun hne => hne.1 hnil]
    refine ⟨h.first, hcount.symm, ?_, h.response, h.singleDone.trans hend.symm,
      h.measureDone.trans hend.symm, hsingle, hmeasure⟩
    rw [List.countP_append, hnil]
    exact h.times
  · rw [if_neg hnil]
    refine ⟨?_, hcount.symm, ?_, ?_, h.singleDone.trans hend.symm,
      h.measureDone.trans hend.symm, hsingle, hmeasure⟩
    · show (if text ≠ [] ∧ s.tFirst = none then some (clock s.reads) else s.tFirst) =
        m.tFirstToken.or (some (clock m.reads))
      rw [← h.first, h.singleReads, h.measureReads]
      cases hfirst : s.tFirst with
      | none => exact if_pos ⟨hnil, rfl⟩
      | some t => exact if_neg fun hne => by cases hne.2
    · show (m.tokenTimes ++ [_]).length = _
      rw [List.length_append, List.countP_append, h.times]
      simp [Kind.hasText, hnil]
    · obtain ⟨texts, htexts⟩ := h.response
      exact ⟨texts ++ [text], by rw [htexts, List.map_append]; rfl⟩

/-- **Step**: a line takes both loops on. -/
theorem books_line (h : Books clock ks s m) {k : Kind} (hline : strip rawLine ≠ [])
    (hkind : lineKind? loads rawLine = some k) (hone : (ks ++ [k]).count .final ≤ 1) :
    ∃ s' m', s.line loads clock rawLine = some s' ∧ m.line loads clock rawLine = some m' ∧
      Books clock (ks ++ [k]) s' m' := by
  cases k with
  | final =>
    have hno : .final ∉ ks := by
      rw [List.count_append, List.count_singleton_self] at hone
      exact List.count_eq_zero.mp (by omega)
    exact ⟨_, _, single_final hline hkind, measure_final hline hkind, books_final h hno⟩
  | token text =>
    exact ⟨_, _, single_token hline hkind, measure_token hline hkind, books_token h text⟩

theorem kinds_blank (hline : strip rawLine = []) (lines : List (List Char)) :
    kinds loads (rawLine :: lines) = kinds loads lines := by
  rw [kinds, List.filter_cons_of_neg (by simpa using hline), kinds]

theorem kinds_cons {k : Kind} (hline : strip rawLine ≠ [])
    (hkind : lineKind? loads rawLine = some k) (lines : List (List Char)) :
    kinds loads (rawLine :: lines) = k :: kinds loads lines := by
  rw [kinds, List.filter_cons_of_pos (by simpa using hline), List.filterMap_cons_some hkind, kinds]

theorem books_run (h : Books clock ks s m)
    (hchunks : ∀ rawLine ∈ lines, strip rawLine ≠ [] → (lineKind? loads rawLine).isSome)
    (hone : (ks ++ kinds loads lines).count .final ≤ 1) :
    ∃ s' m', lines.foldlM (Single.line loads clock) s = some s' ∧
      lines.foldlM (Measure.line loads clock) m = some m' ∧
      Books clock (ks ++ kinds loads lines) s' m' := by
  induction lines generalizing ks s m with
  | nil => exact ⟨s, m, rfl, rfl, by rwa [show kinds loads [] = [] from rfl, List.append_nil]⟩
  | cons rawLine lines ih =>
    have htail : ∀ l ∈ lines, strip l ≠ [] → (lineKind? loads l).isSome :=
      fun l hl => hchunks l (List.mem_cons_of_mem _ hl)
    by_cases hline : strip rawLine = []
    · rw [kinds_blank hline] at hone ⊢
      have hs : s.line loads clock rawLine = some s := if_pos hline
      have hm : m.line loads clock rawLine = some m := if_pos hline
      rw [List.foldlM_cons, List.foldlM_cons, hs, hm]
      exact ih h htail hone
    · obtain ⟨k, hkind⟩ :=
        Option.isSome_iff_exists.mp (hchunks rawLine List.mem_cons_self hline)
      rw [kinds_cons hline hkind, List.append_cons] at hone ⊢
      have hone' : (ks ++ [k]).count .final ≤ 1 := by
        rw [List.count_append] at hone
        omega
      obtain ⟨s₁, m₁, hs₁, hm₁, h₁⟩ := books_line h hline hkind hone'
      rw [List.foldlM_cons, List.foldlM_cons, hs₁, hm₁]
      exact ih h₁ htail hone

/-! ### When they agree -/

/-- The counts are the same exactly if no chunk has an empty text. -/
theorem counts_eq_iff (ks : List Kind) : ks.countP Kind.isToken = ks.countP Kind.hasText ↔
    ∀ text, .token text ∈ ks → text ≠ [] := by
  induction ks with
  | nil => exact iff_of_true rfl fun text h => absurd h List.not_mem_nil
  | cons k ks ih =>
    have hle : ks.countP Kind.hasText ≤ ks.countP Kind.isToken :=
      List.countP_mono_left fun k _ hk => by cases k <;> first | cases hk | rfl
    cases k with
    | final =>
      rw [List.countP_cons_of_neg (by decide), List.countP_cons_of_neg (by decide), ih]
      refine forall_congr' fun text => imp_congr_left ?_
      rw [List.mem_cons]
      exact (or_iff_right Kind.noConfusion).symm
    | token t =>
      rw [List.countP_cons_of_pos rfl]
      by_cases ht : t = []
      · have hno : ¬ (Kind.token t).hasText = true := fun h => of_decide_eq_true h ht
        rw [List.countP_cons_of_neg hno]
        refine iff_of_false (by omega) fun h => h t List.mem_cons_self ht
      · have hyes : (Kind.token t).hasText = true := decide_eq_true ht
        rw [List.countP_cons_of_pos hyes, Nat.add_right_cancel_iff, ih]
        constructor
        · intro h text hmem
          rcases List.mem_cons.mp hmem with heq | hmem
          · rwa [Kind.token.inj heq]
          · exact h text hmem
        · exact fun h text hmem => h text (List.mem_cons_of_mem _ hmem)

theorem endTime_eq_some {ks : List Kind} (h : .final ∈ ks) : ∃ t, endTime clock ks = some t := by
  unfold endTime
  cases hfind : ks.findIdx? fun k => k = .final with
  | none =>
    have hne := List.findIdx?_eq_none_iff.mp hfind .final h
    exact absurd (decide_eq_true rfl) (by rw [hne]; exact Bool.false_ne_true)
  | some i => exact ⟨_, rfl⟩

theorem single_finish {t t0 : ℚ} (h : s.tDone = some t) (ht : t - t0 ≠ 0) :
    (s.finish t0).map (fun r => (r.tokens, r.ttftMs, r.tps)) =
      some (s.tokenCount, roundTo ((orTime s.tFirst t - t0) * 1000) 1,
        roundTo (s.tokenCount / (t - t0)) 1) := by
  unfold Single.finish
  simp only [h, Option.bind_eq_bind, Option.bind_some, if_neg ht]
  rfl

theorem measure_finish {t t0 : ℚ} (h : m.tDone = some t) (ht : t - t0 ≠ 0)
    {texts : List (List Char)} (hresponse : m.fullResponse = texts.map Json.str) :
    (m.finish t0).map (fun r => (r.totalTokens, r.ttftMs, r.throughputTps)) =
      some (m.tokenTimes.length, roundTo ((orTime m.tFirstToken t - t0) * 1000) 1,
        roundTo (m.tokenTimes.length / (t - t0)) 1) := by
  unfold Measure.finish
  simp only [h, hresponse, Json.join_strs, Option.bind_eq_bind, Option.bind_some, if_neg ht]
  rfl

/-- **When the two measurements agree**: every chunk has a text, or both divide by zero. -/
theorem agree_iff (h : IsStream loads lines) : Agree loads clock lines ↔
    (∀ text, .token text ∈ kinds loads lines → text ≠ []) ∨
      endTime clock (kinds loads lines) = some (clock 0) := by
  have hnil : Books clock [] {} {} := books_nil
  obtain ⟨s, m, hs, hm, hbooks⟩ := books_run hnil h.chunks h.final.le
  rw [List.nil_append] at hbooks
  have hfinal : .final ∈ kinds loads lines := List.count_pos_iff.mp (by rw [h.final]; omega)
  obtain ⟨t, ht⟩ : ∃ t, endTime clock (kinds loads lines) = some t := endTime_eq_some hfinal
  obtain ⟨texts, htexts⟩ := hbooks.response
  have hsdone : s.tDone = some t := hbooks.singleDone.trans ht
  have hmdone : m.tDone = some t := hbooks.measureDone.trans ht
  unfold Agree singleRequest runInference
  simp only [hs, hm, Option.bind_eq_bind, Option.bind_some, ht, Option.some_inj]
  by_cases hzero : t = clock 0
  · refine iff_of_true ?_ (.inr hzero)
    have hsub : t - clock 0 = 0 := sub_eq_zero.mpr hzero
    unfold Single.finish Measure.finish
    simp only [hsdone, hmdone, htexts, Json.join_strs, Option.bind_eq_bind, Option.bind_some,
      if_pos hsub, Option.map_none]
  · have hsub : t - clock 0 ≠ 0 := sub_ne_zero.mpr hzero
    rw [single_finish hsdone hsub, measure_finish hmdone hsub htexts, hbooks.tokens, hbooks.times,
      hbooks.first, or_iff_left hzero, ← counts_eq_iff]
    constructor
    · intro heq
      exact congrArg Prod.fst (Option.some_inj.mp heq)
    · intro heq
      rw [heq]

/-! ### Two streams -/

def yesChunk : List Char := "\x7b\"response\":\"yes\"\x7d".toList

def emptyChunk : List Char := "\x7b\"response\":\"\"\x7d".toList

def finalChunk : List Char := "\x7b\"done\":true\x7d".toList

/-- A parser that knows these chunks. -/
def loadsChunks (data : List Char) : Option Json :=
  if data = yesChunk then some (.obj [("response", .str "yes".toList)])
  else if data = emptyChunk then some (.obj [("response", .str [])])
  else if data = finalChunk then some (.obj [("done", .bool true)])
  else none

/-- A reading every tenth of a second. -/
def tenths (i : ℕ) : ℚ := 1 + i / 10

theorem agree_iff_yes : Agree loadsChunks tenths [yesChunk, finalChunk] ↔
    (∀ text, .token text ∈ kinds loadsChunks [yesChunk, finalChunk] → text ≠ []) ∨
      endTime tenths (kinds loadsChunks [yesChunk, finalChunk]) = some (tenths 0) :=
  agree_iff ⟨by decide +kernel, by decide +kernel⟩

/-- An empty chunk is a token to one of them only. -/
theorem empty_chunk_counts :
    ¬ ∀ (loads : List Char → Option Json) (clock : ℕ → ℚ) (lines : List (List Char)),
      IsStream loads lines → (∀ i, 0 < clock i) → Monotone clock → Agree loads clock lines := by
  intro h
  have hpos : ∀ i, 0 < tenths i := by
    intro i
    unfold tenths
    positivity
  have hmono : Monotone tenths := by
    intro i j hij
    have hle : (i : ℚ) ≤ j := by exact_mod_cast hij
    unfold tenths
    linarith
  have hagree := h loadsChunks tenths [yesChunk, emptyChunk, finalChunk]
    ⟨by decide +kernel, by decide +kernel⟩ hpos hmono
  have htokens := congrArg (Option.map Prod.fst) hagree
  rw [Option.map_map, Option.map_map] at htokens
  exact absurd htokens (by decide +kernel)

end InfraDemo.LoadTest.Ollama
