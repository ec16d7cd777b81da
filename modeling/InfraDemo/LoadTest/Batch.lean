import InfraDemo.Lib.OrderedMap
import InfraDemo.LoadTest.Completions
import InfraDemo.LoadTest.Ollama
import InfraDemo.LoadTest.Percentile

/-!
# Batch — `run_load_test`

`run_load_test` of `load_test_vllm.py` and `load_test_ollama.py`: one request for each prompt over
`pool.map`, which is an `OrderedMap` of `single_request`, then a summary.  Whatever order the requests
are answered in, the summary is the one of the requests made one after the other, and an exception is
the one of the first prompt whose request raises (`runs_in_order`).
-/

namespace InfraDemo.LoadTest

open InfraDemo.Ranks

namespace Batch

/-- `PROMPTS` -/
def prompts : List String :=
  ["What is attention in a transformer model?",
    "Explain CUDA cores vs tensor cores.",
    "What does a GPU memory controller do?",
    "Describe the role of the KV cache in inference.",
    "What is speculative decoding?"]

/-- The prompts of a load test. -/
def promptsOf (concurrency : ℤ) : List String :=
  sliceTo (List.replicate 10 prompts).flatten concurrency

/-- What `single_request` returns, as far as the summary reads it. -/
structure Numbers where
  ttftMs : ℚ
  tps : ℚ
  deriving DecidableEq

/-- `statistics.mean`, which raises on no data. -/
def mean (data : List ℚ) : Option ℚ := if data = [] then none else some (data.sum / data.length)

/-- The numbers of the summary, without the wall time. -/
structure Report where
  concurrency : ℤ
  p50 : ℚ
  p95 : ℚ
  max : ℚ
  avgTps : ℚ
  deriving DecidableEq

/-- What is printed for the results; any of the functions raises on no data. -/
def report (concurrency : ℤ) (results : List Numbers) : Option Report := do
  let ttfts := results.map Numbers.ttftMs
  let p50 ← median ttfts
  let p95 ← p95 ttfts
  let max ← ttfts.max?
  let avgTps ← mean (results.map Numbers.tps)
  some { concurrency, p50, p95, max, avgTps }

/-- The outcome of the request for a prompt: its result, or an exception, known by its prompt. -/
def outcome (single : ℕ → Option Numbers) (i : ℕ) : Except ℕ Numbers :=
  match single i with
  | some r => .ok r
  | none => .error i

/-- The states of `run_load_test` inside the `with` block, `single i` being what the request for
prompt `i` comes to. -/
def Running (concurrency : ℤ) (single : ℕ → Option Numbers) :
    OrderedMap.State ℕ Numbers → Prop :=
  OrderedMap.Reachable (outcome single) (promptsOf concurrency).length concurrency.toNat

end Batch

/-! ### The two scripts -/

/-- `run_load_test` of `load_test_vllm.py`, where the response to prompt `i` has `lines i`. -/
def Completions.runLoadTest (loads : List Char → Option Python.Json) (clock : ℕ → ℕ → ℚ)
    (lines : ℕ → List (List Char)) (concurrency : ℤ) : OrderedMap.State ℕ Batch.Numbers → Prop :=
  Batch.Running concurrency fun i =>
    (Completions.singleRequest loads (clock i) (lines i)).map fun r => ⟨r.ttftMs, r.tps⟩

/-- `run_load_test` of `load_test_ollama.py`. -/
def Ollama.runLoadTest (loads : List Char → Option Python.Json) (clock : ℕ → ℕ → ℚ)
    (lines : ℕ → List (List Char)) (concurrency : ℤ) : OrderedMap.State ℕ Batch.Numbers → Prop :=
  Batch.Running concurrency fun i =>
    (Ollama.singleRequest loads (clock i) (lines i)).map fun r => ⟨r.ttftMs, r.tps⟩

namespace Batch

variable {single : ℕ → Option Numbers} {concurrency : ℤ} {results : List Numbers}

/-! ### The summary -/

variable (concurrency) in
theorem length_promptsOf (h : 0 ≤ concurrency) :
    ((promptsOf concurrency).length : ℤ) = min concurrency 50 := by
  unfold promptsOf sliceTo
  rw [if_pos h, List.length_take]
  have hfifty : (List.replicate 10 prompts).flatten.length = 50 := rfl
  omega

/-- **The p95 of up to twenty values is their maximum.** -/
theorem p95_eq_max {data : List ℚ} (h : data ≠ []) (hlen : data.length ≤ 20) :
    p95 data = data.max? := by
  have hpos : 0 < data.length := List.length_pos_of_ne_nil h
  rw [p95_eq_rank, ← rank_last h]
  congr 1
  omega

variable (concurrency) in
/-- Results have a summary, with the three times in order. -/
theorem report_eq_some (h : results ≠ []) : ∃ r, report concurrency results = some r ∧
    r.p50 ≤ r.p95 ∧ r.p95 ≤ r.max ∧ (results.length ≤ 20 → r.p95 = r.max) := by
  have hne : results.map Numbers.ttftMs ≠ [] := fun hnil => h (List.map_eq_nil_iff.mp hnil)
  have htps : results.map Numbers.tps ≠ [] := fun hnil => h (List.map_eq_nil_iff.mp hnil)
  have hpos : 0 < (results.map Numbers.ttftMs).length := List.length_pos_of_ne_nil hne
  obtain ⟨m, hm⟩ := median_eq_some hne
  obtain ⟨x, hx⟩ := p95_eq_some hne
  obtain ⟨M, hM⟩ := Option.isSome_iff_exists.mp (List.isSome_max?_of_ne_nil hne)
  obtain ⟨u, hu⟩ := rank_eq_some (l := results.map Numbers.ttftMs)
    (k := (results.map Numbers.ttftMs).length / 2) (by omega)
  refine ⟨⟨concurrency, m, x, M, (results.map Numbers.tps).sum / (results.map Numbers.tps).length⟩,
    ?_, ?_, rank_le_max? hx hM, fun hlen => ?_⟩
  · simp only [report, hm, hx, hM, mean, if_neg htps, Option.bind_eq_bind, Option.bind_some]
  · exact (median_le_middle hm hu).trans (rank_mono hu hx (by omega))
  · have hmax := p95_eq_max hne (by rwa [List.length_map])
    rw [hx, hM] at hmax
    exact Option.some_inj.mp hmax

/-! ### The requests -/

theorem outcome_eq_ok {i : ℕ} {r : Numbers} : outcome single i = .ok r ↔ single i = some r := by
  unfold outcome
  cases single i <;> simp

theorem outcome_eq_error {i j : ℕ} : outcome single i = .error j ↔ single i = none ∧ i = j := by
  unfold outcome
  cases single i <;> simp

/-- **`run_load_test`**, however the requests overlap.  There are at most `concurrency` of them at a
time, and it ends.  If it has results, they are those of the prompts, in their order, and the summary
of up to twenty has the maximum for its p95.  If it raises, it is with the exception of the first
request that raises, and no request goes on. -/
theorem runs_in_order (hc : 1 ≤ concurrency) {s : OrderedMap.State ℕ Numbers}
    (h : Running concurrency single s) :
    (s.futures.countP OrderedMap.Future.isRunning : ℤ) ≤ concurrency ∧
    ((∃ s' r, Relation.ReflTransGen (OrderedMap.Step (outcome single) concurrency.toNat) s s' ∧
      s'.consumer = .left r) ∧ ¬ ∃ run : ℕ → OrderedMap.State ℕ Numbers, run 0 = s ∧
        ∀ k, OrderedMap.Step (outcome single) concurrency.toNat (run k) (run (k + 1))) ∧
    (∀ results, s.consumer = .left (.ok results) → (results.length : ℤ) = min concurrency 50 ∧
      (∀ i (hi : i < results.length), single i = some results[i]) ∧
      (∀ t ∈ s.futures, t = .finished) ∧
      ∃ r, report concurrency results = some r ∧ r.p50 ≤ r.p95 ∧ r.p95 ≤ r.max ∧
        (concurrency ≤ 20 → r.p95 = r.max)) ∧
    ∀ i, s.consumer = .left (.error i) → i < (promptsOf concurrency).length ∧ single i = none ∧
      (∀ j < i, single j ≠ none) ∧ ∀ t ∈ s.futures, t.Ended := by
  have hcap := (OrderedMap.reachable_sound h).capacity
  have hprompts := length_promptsOf concurrency (by omega)
  obtain ⟨s', hrun, -, hleft⟩ := OrderedMap.leaves (by omega) h
  obtain ⟨ys, hys, hcases⟩ := OrderedMap.sequential_cases (outcome single)
    (promptsOf concurrency).length
  refine ⟨by omega, ⟨⟨s', _, hrun, hleft⟩, OrderedMap.no_infinite_run h⟩, fun results hr => ?_, fun i hr => ?_⟩
  · obtain ⟨hseq, -, hfinished⟩ := OrderedMap.left_spec h hr
    rcases hcases with ⟨hok, hlen⟩ | ⟨-, err, herr, -⟩
    · obtain rfl : results = ys := Except.ok.inj (hseq.trans hok)
      rw [← hlen] at hprompts
      have hne : results ≠ [] := by
        rintro rfl
        rw [List.length_nil] at hprompts
        omega
      obtain ⟨r, hreport, hp50, hp95, hmax⟩ := report_eq_some concurrency hne
      exact ⟨hprompts, fun i hi => outcome_eq_ok.mp (hys i hi), hfinished ⟨_, rfl⟩, r, hreport, hp50,
        hp95, fun hle => hmax (by omega)⟩
    · cases hseq.trans herr
  · obtain ⟨hseq, hover, -⟩ := OrderedMap.left_spec h hr
    rcases hcases with ⟨hok, -⟩ | ⟨hlt, err, herr, hraise⟩
    · cases hseq.trans hok
    · obtain rfl : i = err := Except.error.inj (hseq.trans herr)
      obtain ⟨hnone, rfl⟩ := outcome_eq_error.mp hraise
      refine ⟨hlt, hnone, fun j hj => ?_, hover⟩
      rw [outcome_eq_ok.mp (hys j hj)]
      exact Option.some_ne_none _

/-- Two requests that are answered. -/
theorem runs_in_order_two : ∃ (s : OrderedMap.State ℕ Numbers) (results : List Numbers),
    s.consumer = .left (.ok results) ∧ (results.length : ℤ) = 2 ∧
      ∃ r, report 2 results = some r ∧ r.p95 = r.max := by
  have hinit : Running 2 (fun i => some ⟨i, 1⟩) (OrderedMap.init (promptsOf 2).length) := .init
  obtain ⟨s, -, hs, hleft⟩ := OrderedMap.leaves (by decide) hinit
  obtain ⟨-, -, hok, -⟩ := @runs_in_order _ 2 (by decide) s hs
  obtain ⟨hlen, -, -, r, hr, -, -, hmax⟩ := hok [⟨0, 1⟩, ⟨1, 1⟩] hleft
  exact ⟨s, _, hleft, hlen, r, hr, hmax (by decide)⟩

end Batch

end InfraDemo.LoadTest
