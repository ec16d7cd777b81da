import InfraDemo.Operator.Events
import InfraDemo.Operator.Evidence

/-!
# Quotes — the threshold a scaling event names

`computeDesiredReplicas` compares the usage with a threshold and then clamps;
`makeAdjustmentIfNeeded` looks at the direction of the change and names the threshold that goes with
it.  The two agree unless the clamp turns the direction round: scaling up from above `MaxReplicas`
goes down, scaling down from below `MinReplicas` goes up.
-/

namespace InfraDemo.Operator

open InfraDemo.Go InfraDemo.Hysteresis

/-! ### The text of a scaling event -/

/-- The message ends with the usage against the threshold. -/
def Event.Quotes (e : Event) (usage threshold : Int32) : Prop :=
  ∃ start : String, e.message = start ++ " replicas (KV cache " ++ toString usage.toInt ++
    "% vs threshold " ++ toString threshold.toInt ++ "%)"

/-- The last word of a quoting message is the threshold. -/
theorem quote_last_word (start usage threshold : String) :
    start ++ " replicas (KV cache " ++ usage ++ "% vs threshold " ++ threshold ++ "%)" =
      start ++ " replicas (KV cache " ++ usage ++ "% vs threshold" ++
        (" " ++ (threshold ++ "%)")) := by
  have hsplit : "% vs threshold " = "% vs threshold" ++ " " := rfl
  simp only [hsplit, String.append_assoc]

/-- A message quotes one threshold. -/
theorem Event.Quotes.unique {e : Event} {u u' a b : Int32} (h : e.Quotes u a)
    (h' : e.Quotes u' b) : a = b := by
  obtain ⟨s, hs⟩ := h
  obtain ⟨s', hs'⟩ := h'
  have hno : ∀ n : ℤ, ' ' ∉ (toString n ++ "%)").toList := by
    intro n hmem
    rw [String.toList_append, List.mem_append] at hmem
    rcases hmem with hmem | hmem
    · exact space_notMem_toString n hmem
    · exact absurd hmem (by decide)
  have hm := hs.symm.trans hs'
  rw [quote_last_word, quote_last_word] at hm
  have hword := last_word_inj hm (hno _) (hno _)
  rw [String.append_left_inj] at hword
  exact Int32.toInt_inj.mp (toString_int_injective hword)

/-- A ScaledUp or ScaledDown event. -/
def Event.ReportsScaling (e : Event) : Prop := e.reason = reasonScaledUp ∨ e.reason = reasonScaledDown

variable {rt : Runtime} {w : World} {t : Tick}

theorem scaledEventOf_reports (m : Metrics) (d : Deployment) :
    (scaledEventOf w m d).ReportsScaling := by
  show scaleReason _ _ = _ ∨ scaleReason _ _ = _
  unfold scaleReason
  split_ifs
  · exact .inr rfl
  · exact .inl rfl

theorem reason_of_mem_recoveredFrom {wl : WorkloadLifecycle} {e : Event} {r : String}
    (h : e ∈ recoveredFrom wl r) : e.reason = reasonRecovered := by
  unfold recoveredFrom at h
  split_ifs at h
  · rw [List.mem_singleton.mp h]
    rfl
  · exact absurd h List.not_mem_nil

theorem reason_of_mem_warnOnce {wl : WorkloadLifecycle} {e : Event} {r message : String}
    (h : e ∈ warnOnce wl r message) : e.reason = r := by
  unfold warnOnce at h
  split_ifs at h
  · exact absurd h List.not_mem_nil
  · rw [List.mem_singleton.mp h]
    rfl

/-- Only an accepted change is reported as a scaling, by its own event. -/
theorem scaled_of_reports {x : Exit} {e : Event} (he : e ∈ x.events w) (hr : e.ReportsScaling) :
    ∃ m d s, x = .scaled m d s ∧ e = scaledEventOf w m d := by
  have hno : ∀ r ∈ [reasonRecovered, reasonMetricsUnavailable, reasonTargetDeploymentNotFound,
      reasonScaleFailed], e.reason ≠ r := by
    rintro r hmem rfl
    rcases hr with h | h <;> rw [h] at hmem <;> exact absurd hmem (by decide)
  have hrec : ∀ r, e ∉ recoveredFrom w.wl r := fun r h =>
    hno _ (by simp) (reason_of_mem_recoveredFrom h)
  cases x with
  | unreadable err => exact absurd he List.not_mem_nil
  | metricsUnavailable err =>
    simp only [Exit.events, earlyEvents, midEvents, lateEvents, List.append_nil] at he
    exact absurd (reason_of_mem_warnOnce he) (hno _ (by simp))
  | targetDeploymentNotFound m err =>
    simp only [Exit.events, earlyEvents, midEvents, lateEvents, List.append_nil] at he
    rcases List.mem_append.mp he with he | he
    · exact absurd he (hrec _)
    · exact absurd (reason_of_mem_warnOnce he) (hno _ (by simp))
  | holding m d =>
    simp only [Exit.events, earlyEvents, midEvents, lateEvents, List.append_nil] at he
    rcases List.mem_append.mp he with he | he <;> exact absurd he (hrec _)
  | scaleFailed m d err =>
    simp only [Exit.events, earlyEvents, midEvents, lateEvents, List.mem_append] at he
    rcases he with (he | he) | he
    · exact absurd he (hrec _)
    · exact absurd he (hrec _)
    · exact absurd (reason_of_mem_warnOnce he) (hno _ (by simp))
  | scaled m d s =>
    simp only [Exit.events, earlyEvents, midEvents, lateEvents, List.mem_append] at he
    rcases he with (he | he) | he
    · exact absurd he (hrec _)
    · exact absurd he (hrec _)
    · exact ⟨m, d, s, rfl, List.mem_singleton.mp he⟩

/-! ### The branch and the event -/

section Direction

variable {spec : WorkloadLifecycleSpec} {c u : Int32}

end Direction

end InfraDemo.Operator
