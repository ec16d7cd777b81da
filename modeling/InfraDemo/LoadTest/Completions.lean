import InfraDemo.LoadTest.Streaming

/-!
# Completions — the two measurements of a vLLM completion

`single_request` of `load_test_vllm.py` and `run_inference` of `measure_inference_vllm.py`, from the
lines of the response on (decoded).  The second keeps what the first only counts (`counted`), so
the two agree on every stream, unless a text is not a string: `"".join` then raises behind the loop.
-/

namespace InfraDemo.LoadTest.Completions

open Python

/-! ### The loop of both -/

/-- The loop over the lines, with its body for the data of a chunk, and what it does at `[DONE]`. -/
def eachChunk {σ : Type} (chunk : σ → List Char → Option σ) (done : σ → σ) (s : σ) :
    List (List Char) → Option σ
  | [] => some s
  | rawLine :: rest =>
    match payload? rawLine with
    | none => eachChunk chunk done s rest
    | some data =>
      if data = doneMarker then some (done s)
      else do
        let s ← chunk s data
        eachChunk chunk done s rest

section Loop

variable {σ τ : Type} {chunk : σ → List Char → Option σ} {done : σ → σ}
  {chunk' : τ → List Char → Option τ} {done' : τ → τ} {lines : List (List Char)}

/-- **A view of the variables commutes with the loop** if it commutes with the body. -/
theorem eachChunk_map (view : σ → τ) (s : σ)
    (hchunk : ∀ s data, chunk' (view s) data = (chunk s data).map view)
    (hdone : ∀ s, done' (view s) = view (done s)) :
    eachChunk chunk' done' (view s) lines = (eachChunk chunk done s lines).map view := by
  induction lines generalizing s with
  | nil => rfl
  | cons rawLine lines ih =>
    unfold eachChunk
    cases payload? rawLine with
    | none => exact ih s
    | some data =>
      by_cases hdata : data = doneMarker
      · simp only [if_pos hdata, hdone, Option.map_some]
      · simp only [if_neg hdata, Option.bind_eq_bind, hchunk]
        cases chunk s data with
        | none => rfl
        | some s' => exact ih s'

/-- What each chunk appends to a list, the loop appends for the chunks before the first `[DONE]`. -/
theorem eachChunk_append {α : Type} (log : σ → List α) (news : List Char → List α)
    (hchunk : ∀ s s' data, chunk s data = some s' → log s' = log s ++ news data)
    (hdone : ∀ s, log (done s) = log s) {s s' : σ}
    (h : eachChunk chunk done s lines = some s') :
    log s' = log s ++ (payloads lines).flatMap news := by
  induction lines generalizing s with
  | nil =>
    obtain rfl := Option.some_inj.mp h
    exact (List.append_nil _).symm
  | cons rawLine lines ih =>
    unfold eachChunk at h
    cases hline : payload? rawLine with
    | none =>
      rw [payloads_skip hline]
      exact ih (by simpa only [hline] using h)
    | some data =>
      simp only [hline] at h
      by_cases hdata : data = doneMarker
      · subst hdata
        obtain rfl := Option.some_inj.mp ((if_pos rfl).symm.trans h)
        rw [payloads_done hline, hdone]
        exact (List.append_nil _).symm
      · rw [if_neg hdata] at h
        obtain ⟨s₁, hs₁, hrest⟩ := Option.bind_eq_some_iff.mp h
        rw [payloads_chunk hline hdata, List.flatMap_cons, ih hrest, hchunk s s₁ data hs₁,
          List.append_assoc]

end Loop

/-! ### The texts -/

/-- Is it a string? -/
def isStr : Json → Bool
  | .str _ => true
  | _ => false

theorem join_isStr {xs : List Json} (h : ∀ x ∈ xs, isStr x) : ∃ cs, Json.join xs = some cs := by
  induction xs with
  | nil => exact ⟨[], rfl⟩
  | cons x xs ih =>
    obtain ⟨cs, hcs⟩ := ih fun y hy => h y (List.mem_cons_of_mem x hy)
    cases x with
    | str t => exact ⟨t ++ cs, by rw [Json.join, hcs]; rfl⟩
    | _ => exact absurd (h _ List.mem_cons_self) Bool.false_ne_true

theorem join_not_isStr {xs : List Json} (h : ¬ ∀ x ∈ xs, isStr x) : Json.join xs = none := by
  induction xs with
  | nil => exact absurd (fun x hx => by cases hx) h
  | cons x xs ih =>
    cases x with
    | str t =>
      have hxs : ¬ ∀ y ∈ xs, isStr y := fun hall => h (List.forall_mem_cons.mpr ⟨rfl, hall⟩)
      rw [Json.join, ih hxs]
      rfl
    | _ => rfl

/-- `chunk.get("choices", [{}])[0].get("text", "")` -/
def tokenText (chunk : Json) : Option Json := do
  let choices ← chunk.get "choices" (.arr [.obj []])
  let choice ← choices.first
  choice.get "text" (.str [])

variable (loads : List Char → Option Json) (clock : ℕ → ℚ)

/-! ### load_test_vllm.py -/

/-- The variables of the loop of `single_request`, and the number of clock readings so far. -/
structure Single where
  tFirst : Option ℚ := none
  tokenCount : ℕ := 0
  tDone : Option ℚ := none
  reads : ℕ := 1

def Single.chunk (s : Single) (data : List Char) : Option Single := do
  let chunk ← loads data
  let now := clock s.reads
  let text ← tokenText chunk
  if text.truthy then
    some { s with
      tFirst := s.tFirst.or (some now)
      tokenCount := s.tokenCount + 1
      reads := s.reads + 1 }
  else some { s with reads := s.reads + 1 }

def Single.done (s : Single) : Single :=
  { s with tDone := some (clock s.reads), reads := s.reads + 1 }

structure SingleResult where
  ttftMs : ℚ
  totalS : ℚ
  tokens : ℕ
  tps : ℚ

/-- What follows the loop, with the division by zero. -/
def Single.finish (s : Single) (t0 : ℚ) : Option SingleResult :=
  let tDone := orTime s.tDone (clock s.reads)
  let tFirst := orTime s.tFirst tDone
  if tDone - t0 = 0 then none
  else
    some
      { ttftMs := roundTo ((tFirst - t0) * 1000) 1
        totalS := roundTo (tDone - t0) 2
        tokens := s.tokenCount
        tps := roundTo (s.tokenCount / (tDone - t0)) 1 }

def singleRequest (lines : List (List Char)) : Option SingleResult := do
  let s ← eachChunk (Single.chunk loads clock) (Single.done clock) {} lines
  s.finish clock (clock 0)

/-! ### measure_inference_vllm.py -/

/-- The body of the loop of `run_inference`, which has the variables of the chat scripts. -/
def measureChunk (m : Stream) (data : List Char) : Option Stream := do
  let chunk ← loads data
  let now := clock m.reads
  let text ← tokenText chunk
  if text.truthy then
    some { m with
      tFirstToken := m.tFirstToken.or (some now)
      tokenTimes := m.tokenTimes ++ [now]
      fullResponse := m.fullResponse ++ [text]
      reads := m.reads + 1 }
  else some { m with reads := m.reads + 1 }

def measureDone (m : Stream) : Stream :=
  { m with tDone := some (clock m.reads), reads := m.reads + 1 }

structure MeasureResult where
  ttftMs : ℚ
  tpotMs : ℚ
  throughputTps : ℚ
  totalTokens : ℕ
  responsePreview : List Char

def measureFinish (m : Stream) (tRequestSent : ℚ) : Option MeasureResult := do
  let tDone := orTime m.tDone (clock m.reads)
  let tFirstToken := orTime m.tFirstToken tDone
  let totalTokens := m.tokenTimes.length
  let totalGeneration := if 1 < totalTokens then tDone - tFirstToken else 0
  let tpot := if 1 < totalTokens then totalGeneration / (totalTokens - 1) * 1000 else 0
  if tDone - tRequestSent = 0 then none
  else do
    let response ← Json.join m.fullResponse
    some
      { ttftMs := roundTo ((tFirstToken - tRequestSent) * 1000) 1
        tpotMs := roundTo tpot 1
        throughputTps := roundTo (totalTokens / (tDone - tRequestSent)) 1
        totalTokens
        responsePreview := response.take 120 ++ "...".toList }

def runInference (lines : List (List Char)) : Option MeasureResult := do
  let m ← eachChunk (measureChunk loads clock) (measureDone clock) Stream.sent lines
  measureFinish clock m (clock 0)

/-! ### One counts what the other keeps -/

/-- The text of the data of a chunk, if it is true. -/
def textOf (data : List Char) : List Json :=
  (((loads data).bind tokenText).filter Json.truthy).toList

/-- The texts of the chunks before the first `[DONE]`. -/
def texts (lines : List (List Char)) : List Json := (payloads lines).flatMap (textOf loads)

/-- The variables of `single_request`, from those of `run_inference`. -/
def counted (m : Stream) : Single where
  tFirst := m.tFirstToken
  tokenCount := m.tokenTimes.length
  tDone := m.tDone
  reads := m.reads

variable {loads clock} {m m' : Stream} {s : Single} {data : List Char} {lines : List (List Char)}

theorem chunk_counted (m : Stream) (data : List Char) :
    (counted m).chunk loads clock data = (measureChunk loads clock m data).map counted := by
  unfold Single.chunk measureChunk
  simp only [Option.bind_eq_bind]
  cases loads data with
  | none => rfl
  | some chunk =>
    simp only [Option.bind_some]
    cases tokenText chunk with
    | none => rfl
    | some text =>
      simp only [Option.bind_some]
      by_cases h : text.truthy
      · rw [if_pos h, if_pos h]
        simp only [Option.map_some, counted, List.length_append, List.length_singleton]
      · rw [if_neg h, if_neg h]
        rfl

/-- **The loop of `single_request` is a view of the loop of `run_inference`.** -/
theorem single_loop (lines : List (List Char)) :
    eachChunk (Single.chunk loads clock) (Single.done clock) {} lines =
      (eachChunk (measureChunk loads clock) (measureDone clock) Stream.sent lines).map counted :=
  eachChunk_map counted Stream.sent chunk_counted fun _ => rfl

/-- A chunk appends its text, if it is true. -/
theorem measureChunk_fullResponse (m m' : Stream) (data : List Char)
    (h : measureChunk loads clock m data = some m') :
    m'.fullResponse = m.fullResponse ++ textOf loads data := by
  unfold measureChunk at h
  obtain ⟨chunk, hloads, h⟩ := Option.bind_eq_some_iff.mp h
  obtain ⟨text, htext, h⟩ := Option.bind_eq_some_iff.mp h
  have hof : textOf loads data = if text.truthy then [text] else [] := by
    unfold textOf
    rw [hloads, Option.bind_some, htext, Option.filter_some]
    split_ifs <;> rfl
  rw [hof]
  by_cases htruthy : text.truthy
  · rw [if_pos htruthy] at h ⊢
    rw [← Option.some_inj.mp h]
  · rw [if_neg htruthy] at h ⊢
    rw [← Option.some_inj.mp h, List.append_nil]

theorem loop_fullResponse
    (h : eachChunk (measureChunk loads clock) (measureDone clock) Stream.sent lines = some m) :
    m.fullResponse = texts loads lines := by
  have hdone : ∀ m, (measureDone clock m).fullResponse = m.fullResponse := fun _ => rfl
  have happend := eachChunk_append Stream.fullResponse (textOf loads) measureChunk_fullResponse
    hdone h
  rwa [Stream.sent, List.nil_append] at happend

/-! ### Behind the loop -/

/-- The numbers that both print. -/
def SingleResult.numbers (r : SingleResult) : ℕ × ℚ × ℚ := (r.tokens, r.ttftMs, r.tps)

def MeasureResult.numbers (r : MeasureResult) : ℕ × ℚ × ℚ :=
  (r.totalTokens, r.ttftMs, r.throughputTps)

/-- The same numbers, if the texts can be joined. -/
theorem finish_counted {response : List Char} (h : Json.join m.fullResponse = some response)
    (t : ℚ) : (measureFinish clock m t).map MeasureResult.numbers =
      ((counted m).finish clock t).map SingleResult.numbers := by
  unfold measureFinish Single.finish
  by_cases hzero : orTime m.tDone (clock m.reads) - t = 0
  · have hsingle : orTime (counted m).tDone (clock (counted m).reads) - t = 0 := hzero
    simp only [if_pos hzero, if_pos hsingle, Option.map_none]
  · have hsingle : ¬ orTime (counted m).tDone (clock (counted m).reads) - t = 0 := hzero
    simp only [if_neg hzero, if_neg hsingle, h, Option.bind_eq_bind, Option.bind_some, Option.map_some]
    rfl

theorem finish_raises (h : Json.join m.fullResponse = none) (t : ℚ) :
    measureFinish clock m t = none := by
  unfold measureFinish
  simp only [h, Option.bind_eq_bind, Option.bind_none, ite_self]

variable (loads clock) in
/-- **The two scripts agree on every stream**: they report the same tokens, time to the first token and
tokens per second, and raise on the same streams; only where a text is no string does the
measuring script raise alone, as it joins the texts. -/
theorem runInference_numbers (lines : List (List Char)) :
    (runInference loads clock lines).map MeasureResult.numbers =
      if ∀ text ∈ texts loads lines, isStr text then
        (singleRequest loads clock lines).map SingleResult.numbers
      else none := by
  unfold runInference singleRequest
  simp only [single_loop, Option.bind_eq_bind]
  cases hloop : eachChunk (measureChunk loads clock) (measureDone clock) Stream.sent lines with
  | none => simp only [Option.bind_none, Option.map_none, ite_self]
  | some m =>
    simp only [Option.bind_some, Option.map_some]
    have hresponse : m.fullResponse = texts loads lines := loop_fullResponse hloop
    split_ifs with htexts
    · obtain ⟨response, hjoin⟩ := join_isStr htexts
      exact finish_counted (hresponse ▸ hjoin) (clock 0)
    · rw [finish_raises (hresponse ▸ join_not_isStr htexts), Option.map_none]

/-- A text that is a number is a token to `single_request`; `run_inference` raises. -/
example :
    let loads : List Char → Option Json :=
      fun _ => some (.obj [("choices", .arr [.obj [("text", .number 1)]])])
    let clock : ℕ → ℚ := fun i => 1 + i
    (singleRequest loads clock ["data: \x7b\x7d".toList]).map SingleResult.numbers =
        some (1, 1000, 1 / 2) ∧
      (runInference loads clock ["data: \x7b\x7d".toList]).map MeasureResult.numbers = none := by
  decide +kernel

end InfraDemo.LoadTest.Completions
