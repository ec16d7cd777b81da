import InfraDemo.Lib.Blocks
import InfraDemo.Operator.Status

/-!
# Trace — the events of a run

While status writes persist, the reason a call finds is that of the last call that could read its
object, so its events are the entry of `announced` for that call's outcome and its own.  In a run
that starts with no reason recorded, warnings mark the starts of blocks of one outcome and Recovered
events mark what follows them.
-/

namespace InfraDemo.Operator

open InfraDemo.Go InfraDemo.Blocks

variable {rt : Runtime} {w : World} {t : Tick} {ts : List Tick}

/-! ### One call -/

/-- What a call announces, by the outcome recorded before and its own. -/
theorem call_shows {p : Option Outcome} (hp : Recorded w.wl.status.lastTransitionReason p)
    {o : Outcome} (ho : (call rt w t).outcome? rt = some o) :
    List.Forall₂ Event.Shows (call rt w t).events (announced p o) := by
  rw [call_events]
  refine events_show ho ?_
  rwa [disturb_status]

/-- A persisted call records its outcome. -/
theorem recorded_of_persisted (h : (call rt w t).Persisted) :
    ∃ o, (call rt w t).outcome? rt = some o ∧
      Recorded (next rt w t).wl.status.lastTransitionReason (some o) := by
  rcases after_status rt w t with ⟨-, u, hu, hs⟩ | ⟨hno, -⟩
  · obtain ⟨o, ho, hr, -⟩ := outcome_of_update hu
    refine ⟨o, ho, ?_⟩
    rw [hs]
    exact hr
  · exact absurd h hno

/-! ### The table -/

theorem count_warning : ∀ (p : Option Outcome) (o r : Outcome),
    r ∈ [Outcome.metricsFailed, .readFailed, .updateFailed] →
    (announced p o).count (.warning r) = if o = r ∧ p ≠ some r then 1 else 0 := by
  decide

theorem count_recovered_metrics : ∀ (p : Option Outcome) (o : Outcome),
    (announced p o).count (.recovered .metricsFailed) =
      if p = some .metricsFailed ∧ o ≠ .metricsFailed then 1 else 0 := by
  decide

theorem count_recovered_read : ∀ (p : Option Outcome) (o : Outcome),
    (announced p o).count (.recovered .readFailed) =
      if (p = some .readFailed ∧ o ≠ .readFailed) ∧
        o ∈ [Outcome.updateFailed, .scaledUp, .scaledDown, .held] then 1 else 0 := by
  decide

theorem count_scaled : ∀ (p : Option Outcome) (o r : Outcome),
    r ∈ [Outcome.scaledUp, .scaledDown] →
    (announced p o).count (.scaled r) = if o = r then 1 else 0 := by
  decide

/-- The marks a call can announce. -/
def Mark.kinds : List Mark :=
  [.warning .metricsFailed, .warning .readFailed, .warning .updateFailed, .recovered .metricsFailed,
    .recovered .readFailed, .scaled .scaledUp, .scaled .scaledDown]

theorem length_announced : ∀ (p : Option Outcome) (o : Outcome),
    (announced p o).length = (Mark.kinds.map (announced p o).count).sum := by
  decide

/-! ### Runs -/

/-- The outcome of call `k`, if there is one. -/
def outcomeAt (rt : Runtime) (cs : List Call) (k : ℕ) : Option Outcome :=
  cs[k]?.bind (Call.outcome? rt)

/-- The outcome of the call before `k`. -/
def outcomeBefore (rt : Runtime) (cs : List Call) : ℕ → Option Outcome
  | 0 => none
  | k + 1 => outcomeAt rt cs k

/-- `n` is one if `p` holds and zero if not. -/
def ExactlyIf (n : ℕ) (p : Prop) : Prop := (p → n = 1) ∧ (¬ p → n = 0)

theorem exactlyIf_ite {p q : Prop} [Decidable p] (h : p ↔ q) : ExactlyIf (if p then 1 else 0) q :=
  ⟨fun hq => if_pos (h.mpr hq), fun hq => if_neg fun hp => hq (h.mp hp)⟩

/-- Call `k` of a run whose status writes all persist finds recorded what the call before it was. -/
theorem recorded_before (h0 : Recorded w.wl.status.lastTransitionReason none)
    (hp : ∀ c ∈ calls rt w ts, c.Persisted) {k : ℕ} {c : Call}
    (hc : (calls rt w ts)[k]? = some c) :
    ∃ v t, c = call rt v t ∧
      Recorded v.wl.status.lastTransitionReason (outcomeBefore rt (calls rt w ts) k) := by
  rw [calls, Run.records_getElem?] at hc
  obtain ⟨t, ht, rfl⟩ := Option.map_eq_some_iff.mp hc
  refine ⟨_, t, rfl, ?_⟩
  cases k with
  | zero => exact h0
  | succ j =>
    obtain ⟨hlt, -⟩ := List.getElem?_eq_some_iff.mp ht
    have hj : ts[j]? = some ts[j] := List.getElem?_eq_getElem (by omega)
    have hcj : (calls rt w ts)[j]? = some (call rt (Run.final (next rt) w (ts.take j)) ts[j]) := by
      rw [calls, Run.records_getElem?, hj]
      rfl
    obtain ⟨o, ho, hrec⟩ := recorded_of_persisted (hp _ (List.mem_of_getElem? hcj))
    have hfinal : Run.final (next rt) w (ts.take (j + 1)) =
        next rt (Run.final (next rt) w (ts.take j)) ts[j] := by
      rw [List.take_succ_eq_append_getElem (by omega), Run.final_concat]
    have hout : outcomeBefore rt (calls rt w ts) (j + 1) = some o := by
      rw [outcomeBefore, outcomeAt, hcj]
      exact ho
    rw [hfinal, hout]
    exact hrec

/-- The first call of a block of `o`: it has that outcome and the call before has not. -/
theorem starts_outcomeAt {cs : List Call} {k : ℕ} {o r : Outcome} (ho : outcomeAt rt cs k = some o) :
    Starts (fun k => outcomeAt rt cs k = some r) k ↔ o = r ∧ outcomeBefore rt cs k ≠ some r := by
  rw [Starts, ho, Option.some_inj]
  cases k with
  | zero => simp [outcomeBefore]
  | succ k => simp [outcomeBefore]

/-- The call that directly follows a block of `r`. -/
theorem follows_outcomeAt {cs : List Call} {k : ℕ} {o r : Outcome}
    (ho : outcomeAt rt cs k = some o) : (∃ i, IsBlock (fun k => outcomeAt rt cs k = some r) i k) ↔
      outcomeBefore rt cs k = some r ∧ o ≠ r := by
  rw [follows_iff, ho, Option.some_inj]
  cases k with
  | zero => simp [outcomeBefore]
  | succ k => simp [outcomeBefore]

/-- No call, no outcome. -/
theorem outcomeAt_of_length_le {cs : List Call} {k : ℕ} (h : cs.length ≤ k) (r : Outcome) :
    ¬ outcomeAt rt cs k = some r := by
  rw [outcomeAt, List.getElem?_eq_none h]
  simp

/-- The calls from `i` to before `j` are a maximal block of outcome `r`. -/
def OutcomeBlock (rt : Runtime) (cs : List Call) (r : Outcome) (i j : ℕ) : Prop :=
  IsBlock (fun k => outcomeAt rt cs k = some r) i j

theorem starts_block_iff {cs : List Call} {r : Outcome} {k : ℕ} :
    (∃ j, OutcomeBlock rt cs r k j) ↔ Starts (fun k => outcomeAt rt cs k = some r) k :=
  starts_iff fun _ hk => outcomeAt_of_length_le hk r

/-- The outcome of a call of a run whose status writes all persist, what was recorded before, and how
many of its events say what. -/
theorem counts_at (h0 : w.wl.status.lastTransitionReason = "")
    (hp : ∀ c ∈ calls rt w ts, c.Persisted) {k : ℕ} {c : Call}
    (hc : (calls rt w ts)[k]? = some c) :
    ∃ o, c.outcome? rt = some o ∧ outcomeAt rt (calls rt w ts) k = some o ∧
      List.Forall₂ Event.Shows c.events (announced (outcomeBefore rt (calls rt w ts) k) o) := by
  have hnone : Recorded w.wl.status.lastTransitionReason none := by
    rw [h0]
    exact recorded_empty
  have hpers := hp c (List.mem_of_getElem? hc)
  obtain ⟨v, t, rfl, hrec⟩ := recorded_before hnone hp hc
  obtain ⟨o, ho, -⟩ := recorded_of_persisted hpers
  refine ⟨o, ho, ?_, call_shows hrec ho⟩
  rw [outcomeAt, hc]
  exact ho

/-- What the calls of a run announce: a Warning is emitted by the first call of each block of its
outcome, a Recovered event naming MetricsUnavailable by the call that follows each block of metrics
failures, one naming TargetDeploymentNotFound by the call that follows each block of failed reads if
it gets past the read, a ScaledUp or ScaledDown event by each call that scaled, and no other event by
any call. -/
def EventTraceLaw (rt : Runtime) (cs : List Call) : Prop :=
  (∀ k c, cs[k]? = some c → ∃ o, c.outcome? rt = some o ∧
    (∀ r ∈ [Outcome.metricsFailed, .readFailed, .updateFailed],
      ExactlyIf (c.count (.warning r)) (∃ j, OutcomeBlock rt cs r k j)) ∧
    ExactlyIf (c.count (.recovered .metricsFailed)) (∃ i, OutcomeBlock rt cs .metricsFailed i k) ∧
    ExactlyIf (c.count (.recovered .readFailed)) ((∃ i, OutcomeBlock rt cs .readFailed i k) ∧
      o ∈ [Outcome.updateFailed, .scaledUp, .scaledDown, .held]) ∧
    (∀ r ∈ [Outcome.scaledUp, .scaledDown], ExactlyIf (c.count (.scaled r)) (o = r)) ∧
    c.events.length = (Mark.kinds.map c.count).sum) ∧
  ∀ r ∈ [Outcome.metricsFailed, .readFailed, .updateFailed],
    (cs.map fun c => c.count (.warning r)).sum =
      {b : ℕ × ℕ | OutcomeBlock rt cs r b.1 b.2}.ncard

/-- **The event trace law** holds of every run whose status writes all persist, from no recorded
reason. -/
theorem event_trace_law (h0 : w.wl.status.lastTransitionReason = "")
    (hp : ∀ c ∈ calls rt w ts, c.Persisted) : EventTraceLaw rt (calls rt w ts) := by
  refine ⟨fun k c hc => ?_, fun r hr => ?_⟩
  · obtain ⟨o, ho, hat, hs⟩ := counts_at h0 hp hc
    have hcount : ∀ m, c.count m =
        (announced (outcomeBefore rt (calls rt w ts) k) o).count m := countP_shows hs
    refine ⟨o, ho, fun r hr => ?_, ?_, ?_, fun r hr => ?_, ?_⟩
    · rw [hcount, count_warning _ o r hr]
      exact exactlyIf_ite ((starts_outcomeAt hat).symm.trans starts_block_iff.symm)
    · rw [hcount, count_recovered_metrics]
      exact exactlyIf_ite (follows_outcomeAt hat).symm
    · rw [hcount, count_recovered_read]
      exact exactlyIf_ite (and_congr_left' (follows_outcomeAt hat).symm)
    · rw [hcount, count_scaled _ o r hr]
      exact exactlyIf_ite Iff.rfl
    · rw [hs.length_eq, length_announced, funext hcount]
  · rw [sum_map_eq_card _ _ (Starts fun k => outcomeAt rt (calls rt w ts) k = some r)]
    · exact (ncard_blocks fun _ hk => outcomeAt_of_length_le hk r).symm
    · intro k c hc
      obtain ⟨o, -, hat, hs⟩ := counts_at h0 hp hc
      rw [Call.count, countP_shows hs, count_warning _ o r hr]
      exact if_congr (starts_outcomeAt hat).symm rfl rfl

/-- A failed metrics fetch. -/
def Tick.unreachable : Tick where
  metrics := .failed "connection refused"

/-- A half-full cache, and a failed Deployment read. -/
def Tick.lost : Tick :=
  { Tick.serving "vllm_kv_cache_usage_perc 0.5" with
    deployErr := some { notFound := true, text := "not found" } }

theorem outcome_unreachable (w : World) :
    (call rt w .unreachable).outcome? rt = some .metricsFailed := by
  rw [outcome?_call, callExit_eq rt w .unreachable (.metricsUnavailable rfl rfl)]
  rfl

theorem outcome_lost (w : World) :
    (call (.exact 0) w .lost).outcome? (.exact 0) = some .readFailed := by
  rw [outcome?_call,
    callExit_eq (.exact 0) w .lost (.targetDeploymentNotFound rfl readAnswer_half rfl)]
  rfl

theorem event_trace_law_sample :
    EventTraceLaw (.exact 0) (calls (.exact 0) (.fresh .sample (some 2)) [.unreachable, .lost]) :=
  event_trace_law rfl fun c hc => by
    rcases List.mem_pair.mp hc with rfl | rfl
    · exact persisted_of_quiet (by decide)
    · exact persisted_of_quiet (by decide)

end InfraDemo.Operator
