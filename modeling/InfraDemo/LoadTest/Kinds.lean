import Mathlib.Data.Rat.Floor
import Mathlib.Tactic.Linarith
import InfraDemo.LoadTest.Shutdown

/-!
# Kinds — the report of `load_test_chunked_prefill.py` by the kinds of results

The list has chat results, of the sessions, and injections.  Either kind can be missing: the report
asks for injections, but takes the median of the chat results in any case.
-/

namespace InfraDemo.LoadTest

/-- The latency that is printed of a kind. -/
def Summary.latencyOf : Summary → RowType → Option Latency
  | .all _ _ _, _ => none
  | .byType chat _, .chat => some chat
  | .byType _ inject, .inject => inject

/-- `int(n * 0.95)` is an index of a list of `n`, also where the product is a little off. -/
def IndexInRange (n : ℕ) : Prop := ∀ q : ℚ, |q - 95 * n / 100| ≤ n / 100 → 0 ≤ ⌊q⌋ ∧ ⌊q⌋ < n

/-- The report runs through: the table has every result, and the summary the latency of every kind
that is present. -/
def Reports (rows : List Row) : Prop :=
  ∃ table summary, printResults .chunkedPrefill rows = .printed table (some summary) ∧
    table.Perm rows ∧ ∀ kind, ttftsOf kind rows ≠ [] →
      (∃ l, latency (ttftsOf kind rows) = some l ∧ summary.latencyOf kind = some l) ∧
        IndexInRange (ttftsOf kind rows).length

theorem index_in_range {n : ℕ} (hn : 0 < n) : IndexInRange n := by
  intro q hq
  have hpos : (0 : ℚ) < n := by exact_mod_cast hn
  obtain ⟨hlow, hhigh⟩ := abs_le.mp hq
  constructor
  · rw [Int.floor_nonneg]
    linarith
  · rw [Int.floor_lt]
    push_cast
    linarith

/-- With chat results there is a summary, of the injections too if there are any. -/
theorem summary_chunkedPrefill {rows : List Row} {chat : Latency}
    (hchat : latency (ttftsOf .chat rows) = some chat) : summary .chunkedPrefill rows =
      some (.byType chat (latency (ttftsOf .inject rows))) := by
  dsimp only [summary]
  rw [hchat]
  show (if ttftsOf .inject rows = [] then _ else _) = _
  split_ifs with hnil
  · rw [hnil, latency_nil]
  · obtain ⟨inject, hinject⟩ := latency_eq_some hnil
    rw [hinject]
    rfl

/-- The report of any list of results. -/
theorem reports_rows_iff {rows : List Row} :
    Reports rows ↔ ∃ r ∈ rows, r.type = some .chat := by
  constructor
  · rintro ⟨table, x, hprinted, -, -⟩
    unfold printResults at hprinted
    split_ifs at hprinted
    injection hprinted with htable hsummary
    exact summary_eq_some_iff.mp ⟨x, hsummary⟩
  · rintro ⟨r, hr, htype⟩
    have hne : ttftsOf .chat rows ≠ [] := by
      have hmem : r.ttftMs ∈ ttftsOf .chat rows :=
        List.mem_map_of_mem (List.mem_filter.mpr ⟨hr, decide_eq_true htype⟩)
      exact List.ne_nil_of_mem hmem
    obtain ⟨chat, hchat⟩ := latency_eq_some hne
    refine ⟨_, .byType chat (latency (ttftsOf .inject rows)), ?_,
      List.mergeSort_perm rows (Row.le .chunkedPrefill), ?_⟩
    · rw [printResults, if_neg (List.ne_nil_of_mem hr), summary_chunkedPrefill hchat]
    · intro kind hkind
      refine ⟨?_, index_in_range (List.length_pos_of_ne_nil hkind)⟩
      cases kind with
      | chat => exact ⟨chat, hchat, rfl⟩
      | inject =>
        obtain ⟨inject, hinject⟩ := latency_eq_some hkind
        exact ⟨inject, hinject, hinject⟩

variable {a : Args} {s : State}

/-- **When the report runs through**: a session's turn must have been collected. -/
theorem reports_iff (hs : s.Reachable a) (hscript : a.script = .chunkedPrefill) :
    Reports s.allResults ↔ ∃ r ∈ s.allResults, r.isChat = true := by
  have hsummary := exists_summary_iff (reachable_sound hs)
  rw [summary_eq_some_iff, hscript] at hsummary
  exact reports_rows_iff.trans hsummary

/-- One session of one turn, and an injector. -/
def mixedOnce : Args where
  script := .chunkedPrefill
  turns := 1
  concurrency := 1
  thinkTime := 0
  continuous := false
  mixed := true

/-- The session is collected. -/
theorem reports_iff_mixedOnce : ∃ s : State, s.Reachable mixedOnce ∧ Reports s.allResults := by
  have hreply := (State.Reachable.init (a := mixedOnce)).step
    (.session (i := 0) rfl (.reply rfl ⟨40, 10, 3, "yes"⟩))
  have hcheck := hreply.step (.session (i := 0) rfl (.check rfl))
  have hcomplete := hcheck.step
    (.complete (i := 0) rfl (show 0 ∈ Finset.range 1 by decide) rfl rfl)
  exact ⟨_, hcomplete, (reports_iff hcomplete rfl).mpr ⟨_, List.mem_singleton_self _, rfl⟩⟩

/-- An injection is collected, and the run interrupted before the session's turn is. -/
theorem injections_only_fail :
    ¬ ∀ (a : Args) (s : State), s.Reachable a → a.script = .chunkedPrefill → s.CutOff →
      s.allResults ≠ [] → Reports s.allResults := by
  intro h
  have hfire := (State.Reachable.init (a := mixedOnce)).step (.fire ⟨rfl, rfl⟩ rfl rfl)
  have hinject := hfire.step (.inject rfl ⟨900, 10, 3, "cold"⟩)
  have hinterrupt := hinject.step (.interrupt trivial)
  have hreply := hinterrupt.step (.session (i := 0) rfl (.reply rfl ⟨40, 10, 3, "yes"⟩))
  have hcheck := hreply.step (.session (i := 0) rfl (.check rfl))
  have hended : ∀ w ∈ [((ChatSession.start mixedOnce 1).record mixedOnce ⟨40, 10, 3, "yes"⟩).check
      mixedOnce true], w.Ended := by
    intro w hw
    rw [List.mem_singleton.mp hw]
    exact .inl rfl
  obtain ⟨r, hr, htype⟩ := reports_rows_iff.mp
    (h mixedOnce _ hcheck rfl ⟨.inl rfl, hended⟩ (List.cons_ne_nil _ _))
  rw [List.mem_singleton.mp hr] at htype
  cases htype

end InfraDemo.LoadTest
