import Mathlib.Algebra.Order.Ring.Rat
import InfraDemo.LoadTest.Session

/-!
# Report — what the load generators print

The end of both scripts, from the list of results: nothing but a message for an empty list, else the
sorted table and a summary.  A summary fails where it takes the median of no values; the table stands
before it.
-/

namespace InfraDemo.LoadTest

/-! ### Statistics -/

/-- `sorted(data)` -/
def sorted (data : List ℚ) : List ℚ := data.mergeSort fun x y => decide (x ≤ y)

/-- `statistics.median`, which raises on no data. -/
def median (data : List ℚ) : Option ℚ :=
  let n := data.length
  if n = 0 then none
  else if n % 2 = 1 then (sorted data)[n / 2]?
  else do
    let low ← (sorted data)[n / 2 - 1]?
    let high ← (sorted data)[n / 2]?
    some ((low + high) / 2)

/-- `sorted(data)[int(len(data) * 0.95)]`, the product taken exactly. -/
def p95 (data : List ℚ) : Option ℚ := (sorted data)[95 * data.length / 100]?

structure Latency where
  requests : ℕ
  p50 : ℚ
  p95 : ℚ

def latency (data : List ℚ) : Option Latency := do
  let p50 ← median data
  let p95 ← p95 data
  some { requests := data.length, p50, p95 }

theorem sorted_eq_some {data : List ℚ} {k : ℕ} (hk : k < data.length) :
    ∃ x, (sorted data)[k]? = some x := by
  have hlen : (sorted data).length = data.length := List.length_mergeSort data
  exact ⟨_, List.getElem?_eq_getElem (by omega)⟩

theorem median_eq_some {data : List ℚ} (h : data ≠ []) : ∃ x, median data = some x := by
  have hpos : 0 < data.length := List.length_pos_of_ne_nil h
  unfold median
  dsimp only
  rw [if_neg hpos.ne']
  split_ifs with hodd
  · exact sorted_eq_some (by omega)
  · have hlow : data.length / 2 - 1 < data.length := by omega
    have hhigh : data.length / 2 < data.length := by omega
    obtain ⟨low, hlow⟩ := sorted_eq_some hlow
    obtain ⟨high, hhigh⟩ := sorted_eq_some hhigh
    rw [hlow, hhigh]
    exact ⟨_, rfl⟩

theorem p95_eq_some {data : List ℚ} (h : data ≠ []) : ∃ x, p95 data = some x := by
  have hpos : 0 < data.length := List.length_pos_of_ne_nil h
  exact sorted_eq_some (by omega)

/-- The latency of some data can be computed. -/
theorem latency_eq_some {data : List ℚ} (h : data ≠ []) : ∃ x, latency data = some x := by
  obtain ⟨m, hm⟩ := median_eq_some h
  obtain ⟨q, hq⟩ := p95_eq_some h
  unfold latency
  rw [hm, hq]
  exact ⟨_, rfl⟩

@[simp] theorem latency_nil : latency [] = none := rfl

/-! ### The report -/

/-- The numbers under the table: over all requests, or by the type of the results. -/
inductive Summary where
  | all (ttft : Latency) (ttftMax tpotP50 : ℚ)
  | byType (chat : Latency) (inject : Option Latency)

/-- `str(r["session"])` -/
def Origin.text : Origin → String
  | .session n => toString n
  | .inject n => "INJ-" ++ toString n

/-- The number of a session. -/
def Origin.number : Origin → ℕ
  | .session n => n
  | .inject n => n

/-- The order of the table: by number and turn, or by the text of the session and turn. -/
def Row.le : Script → Row → Row → Bool
  | .multiSession, r, r' =>
    r.session.number < r'.session.number ||
      r.session.number == r'.session.number && decide (r.turn ≤ r'.turn)
  | .chunkedPrefill, r, r' =>
    r.session.text < r'.session.text ||
      r.session.text == r'.session.text && decide (r.turn ≤ r'.turn)

/-- The TTFTs of one type of results. -/
def ttftsOf (type : RowType) (rows : List Row) : List ℚ :=
  (rows.filter fun r => r.type = some type).map Row.ttftMs

def summary : Script → List Row → Option Summary
  | .multiSession, rows => do
    let ttft ← latency (rows.map Row.ttftMs)
    let ttftMax ← (rows.map Row.ttftMs).max?
    let tpotP50 ← median (rows.map Row.tpotMs)
    some (.all ttft ttftMax tpotP50)
  | .chunkedPrefill, rows => do
    let chat ← latency (ttftsOf .chat rows)
    if ttftsOf .inject rows = [] then some (.byType chat none)
    else do
      let inject ← latency (ttftsOf .inject rows)
      some (.byType chat (some inject))

/-- What a run prints in the end; without a summary the script raises after the table. -/
inductive Output where
  | traceback
  | noResults
  | printed (table : List Row) (summary : Option Summary)

def printResults (script : Script) (rows : List Row) : Output :=
  if rows = [] then .noResults
  else .printed (rows.mergeSort (Row.le script)) (summary script rows)

/-- A summary over all requests needs one, a summary by type a chat result. -/
theorem summary_eq_some_iff {script : Script} {rows : List Row} :
    (∃ x, summary script rows = some x) ↔
      match script with
      | .multiSession => rows ≠ []
      | .chunkedPrefill => ∃ r ∈ rows, r.type = some .chat := by
  cases script with
  | multiSession =>
    cases rows with
    | nil => exact iff_of_false (fun ⟨x, hx⟩ => by cases hx) (fun h => h rfl)
    | cons r rows =>
      refine iff_of_true ?_ (List.cons_ne_nil _ _)
      have hne (f : Row → ℚ) : (r :: rows).map f ≠ [] := List.cons_ne_nil _ _
      obtain ⟨ttft, httft⟩ := latency_eq_some (hne Row.ttftMs)
      obtain ⟨tpot, htpot⟩ := median_eq_some (hne Row.tpotMs)
      dsimp only [summary]
      rw [httft, htpot]
      exact ⟨_, rfl⟩
  | chunkedPrefill =>
    have hchat : ttftsOf .chat rows ≠ [] ↔ ∃ r ∈ rows, r.type = some .chat := by
      simp [ttftsOf]
    rw [← hchat]
    constructor
    · rintro ⟨x, hx⟩ hnil
      dsimp only [summary] at hx
      rw [hnil, latency_nil] at hx
      cases hx
    · intro hne
      obtain ⟨chat, hchat⟩ := latency_eq_some hne
      dsimp only [summary]
      rw [hchat]
      show ∃ x, (if ttftsOf .inject rows = [] then _ else _) = some x
      split_ifs with hnil
      · exact ⟨_, rfl⟩
      · obtain ⟨inject, hinject⟩ := latency_eq_some hnil
        rw [hinject]
        exact ⟨_, rfl⟩

end InfraDemo.LoadTest
