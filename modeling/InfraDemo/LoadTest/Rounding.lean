import Mathlib.Algebra.Order.AbsoluteValue.Basic
import Mathlib.Data.Option.Basic
import Mathlib.Tactic.Linarith
import Mathlib.Tactic.Positivity
import InfraDemo.LoadTest.Percentile
import InfraDemo.LoadTest.Streaming

/-!
# Rounding — the reports are made from rounded numbers

`run_inference` rounds the latencies to a tenth before the report ranks them, and the report rounds
again as it prints.  Rounding is monotone, so it commutes with the sort: a p95 or a maximum is the
rounded one of the exact latencies, and a printed number is off by half a tenth more than it would be
anyway: a TTFT by 0.55, a TPOT, which is printed with one digit, by 0.1.
-/

namespace InfraDemo.LoadTest

open Python Ranks

variable {x y : ℚ} {data : List ℚ}

/-! ### round -/

/-- `round` of a number to a whole one. -/
def roundWhole (x : ℚ) : ℤ :=
  if x - ⌊x⌋ < 1 / 2 ∨ x - ⌊x⌋ = 1 / 2 ∧ ⌊x⌋ % 2 = 0 then ⌊x⌋ else ⌊x⌋ + 1

theorem roundTo_eq (x : ℚ) (digits : ℕ) :
    roundTo x digits = roundWhole (10 ^ digits * x) / 10 ^ digits := rfl

theorem roundWhole_mono (h : x ≤ y) : roundWhole x ≤ roundWhole y := by
  have hfloor : ⌊x⌋ ≤ ⌊y⌋ := Int.floor_le_floor h
  unfold roundWhole
  rcases hfloor.lt_or_eq with hlt | heq
  · split_ifs <;> omega
  · -- in one unit: what rounds `y` down rounds `x` down
    rw [heq]
    split_ifs with hx hy hy
    · exact le_rfl
    · omega
    · refine absurd ?_ hx
      rcases hy with hy | ⟨hy, heven⟩
      · exact .inl (by linarith)
      · rcases h.lt_or_eq with hxy | rfl
        · exact .inl (by linarith)
        · exact .inr ⟨hy, heven⟩
    · exact le_rfl

theorem abs_roundWhole_sub_le (x : ℚ) : |(roundWhole x : ℚ) - x| ≤ 1 / 2 := by
  have hle := Int.floor_le x
  have hlt := Int.lt_floor_add_one x
  unfold roundWhole
  split_ifs with h
  · have hrest : x - ⌊x⌋ ≤ 1 / 2 := h.elim le_of_lt fun h => h.1.le
    rw [abs_le]
    constructor <;> linarith
  · have hrest : 1 / 2 ≤ x - ⌊x⌋ := not_lt.mp fun hlt => h (.inl hlt)
    push_cast
    rw [abs_le]
    constructor <;> linarith

theorem roundTo_mono (digits : ℕ) : Monotone fun x => roundTo x digits := by
  intro x y hxy
  have hpow : (0 : ℚ) < 10 ^ digits := by positivity
  have hwhole : roundWhole (10 ^ digits * x) ≤ roundWhole (10 ^ digits * y) :=
    roundWhole_mono (mul_le_mul_of_nonneg_left hxy hpow.le)
  show roundTo x digits ≤ roundTo y digits
  rw [roundTo_eq, roundTo_eq]
  exact div_le_div_of_nonneg_right (by exact_mod_cast hwhole) hpow.le

theorem abs_roundTo_sub_le (x : ℚ) (digits : ℕ) :
    |roundTo x digits - x| ≤ 1 / 2 / 10 ^ digits := by
  have hpow : (0 : ℚ) < 10 ^ digits := by positivity
  have hscale : roundTo x digits - x =
      ((roundWhole (10 ^ digits * x) : ℚ) - 10 ^ digits * x) / 10 ^ digits := by
    rw [roundTo_eq, sub_div, mul_div_cancel_left₀ x hpow.ne']
  rw [hscale, abs_div, abs_of_pos hpow]
  exact div_le_div_of_nonneg_right (abs_roundWhole_sub_le _) hpow.le

/-! ### The statistics of rounded numbers -/

/-- A number of the report, made from rounded latencies, beside the one of the exact latencies: it is
off by half a tenth at most, and by as much more as it is rounded for its `digits` when printed. -/
def Near (digits : ℕ) (rounded exact : ℚ) : Prop :=
  |rounded - exact| ≤ 1 / 20 ∧ |roundTo rounded digits - exact| ≤ 1 / 2 / 10 ^ digits + 1 / 20

theorem near_of_abs_le (digits : ℕ) (h : |x - y| ≤ 1 / 20) : Near digits x y := by
  refine ⟨h, ?_⟩
  calc |roundTo x digits - y| ≤ |roundTo x digits - x| + |x - y| := abs_sub_le _ _ _
    _ ≤ 1 / 2 / 10 ^ digits + 1 / 20 := add_le_add (abs_roundTo_sub_le x digits) h

theorem near_roundTo (digits : ℕ) (x : ℚ) : Near digits (roundTo x 1) x := by
  have herror := abs_roundTo_sub_le x 1
  norm_num at herror
  exact near_of_abs_le digits (by linarith)

/-- The latencies to a tenth. -/
def toTenths (data : List ℚ) : List ℚ := data.map fun x => roundTo x 1

theorem sorted_toTenths (data : List ℚ) (k : ℕ) :
    (sorted (toTenths data))[k]? = ((sorted data)[k]?).map fun x => roundTo x 1 :=
  rank_map (roundTo_mono 1) data k

/-- The p95 of the rounded latencies is the rounded p95. -/
theorem p95_toTenths (data : List ℚ) : p95 (toTenths data) = (p95 data).map fun x => roundTo x 1 := by
  rw [p95, p95, show (toTenths data).length = data.length from List.length_map _, sorted_toTenths]

/-- The median of an even number of latencies is between two of them. -/
theorem median_toTenths (digits : ℕ) (data : List ℚ) :
    Option.Rel (Near digits) (median (toTenths data)) (median data) := by
  have hlen : (toTenths data).length = data.length := List.length_map _
  unfold median
  dsimp only
  rw [hlen, sorted_toTenths, sorted_toTenths]
  split_ifs with hnil hodd
  · exact .none
  · cases (sorted data)[data.length / 2]? with
    | none => exact .none
    | some x => exact .some (near_roundTo digits x)
  · cases (sorted data)[data.length / 2 - 1]? with
    | none => exact .none
    | some low =>
      cases (sorted data)[data.length / 2]? with
      | none => exact .none
      | some high =>
        refine .some (near_of_abs_le digits ?_)
        have hlow := abs_le.mp (near_roundTo digits low).1
        have hhigh := abs_le.mp (near_roundTo digits high).1
        rw [abs_le]
        constructor <;> linarith [hlow.1, hlow.2, hhigh.1, hhigh.2]

/-- A number that is the rounded one, beside the exact one. -/
def Tenth (digits : ℕ) (rounded exact : ℚ) : Prop :=
  rounded = roundTo exact 1 ∧ Near digits rounded exact

theorem tenth_roundTo (digits : ℕ) (x : ℚ) : Tenth digits (roundTo x 1) x :=
  ⟨rfl, near_roundTo digits x⟩

/-- The latency of rounded numbers beside the one of exact numbers; it is printed without digits. -/
structure Latency.Near (rounded exact : Latency) : Prop where
  requests : rounded.requests = exact.requests
  p50 : LoadTest.Near 0 rounded.p50 exact.p50
  p95 : Tenth 0 rounded.p95 exact.p95

theorem latency_toTenths (data : List ℚ) :
    Option.Rel Latency.Near (latency (toTenths data)) (latency data) := by
  unfold latency
  rw [p95_toTenths]
  have hmedian := median_toTenths 0 data
  generalize median (toTenths data) = m, median data = m' at hmedian
  cases hmedian with
  | none => exact .none
  | some hp50 =>
    cases p95 data with
    | none => exact .none
    | some x => exact .some ⟨List.length_map _, hp50, tenth_roundTo 0 x⟩

/-! ### The report -/

/-- The result with the latencies of a measurement, not rounded. -/
def Row.unrounded (exact : Row → Measured) (r : Row) : Row :=
  { r with ttftMs := (exact r).ttftMs, tpotMs := (exact r).tpotMs }

/-- The latencies of the results are rounded ones. -/
def Rounded (exact : Row → Measured) (rows : List Row) : Prop :=
  ∀ r ∈ rows, r.ttftMs = roundTo (exact r).ttftMs 1 ∧ r.tpotMs = roundTo (exact r).tpotMs 1

/-- The summary of rounded results beside the one of exact results; the TPOT is printed with one
digit. -/
inductive Summary.Near : Summary → Summary → Prop where
  | all {ttft ttft' : Latency} {ttftMax ttftMax' tpotP50 tpotP50' : ℚ} (latency : ttft.Near ttft')
      (max : Tenth 0 ttftMax ttftMax') (tpot : LoadTest.Near 1 tpotP50 tpotP50') :
      Near (.all ttft ttftMax tpotP50) (.all ttft' ttftMax' tpotP50')
  | chatOnly {chat chat' : Latency} (latency : chat.Near chat') :
      Near (.byType chat none) (.byType chat' none)
  | both {chat chat' inject inject' : Latency} (latency : chat.Near chat')
      (injectLatency : inject.Near inject') :
      Near (.byType chat (some inject)) (.byType chat' (some inject'))

variable {exact : Row → Measured} {rows : List Row}

theorem map_ttftMs (h : Rounded exact rows) :
    rows.map Row.ttftMs = toTenths ((rows.map (Row.unrounded exact)).map Row.ttftMs) := by
  rw [toTenths, List.map_map, List.map_map]
  exact List.map_congr_left fun r hr => (h r hr).1

theorem map_tpotMs (h : Rounded exact rows) :
    rows.map Row.tpotMs = toTenths ((rows.map (Row.unrounded exact)).map Row.tpotMs) := by
  rw [toTenths, List.map_map, List.map_map]
  exact List.map_congr_left fun r hr => (h r hr).2

theorem ttftsOf_unrounded (h : Rounded exact rows) (type : RowType) :
    ttftsOf type rows = toTenths (ttftsOf type (rows.map (Row.unrounded exact))) := by
  have hfilter : (rows.map (Row.unrounded exact)).filter (fun r => r.type = some type) =
      (rows.filter fun r => r.type = some type).map (Row.unrounded exact) := by
    rw [List.filter_map]
    rfl
  rw [ttftsOf, ttftsOf, hfilter]
  exact map_ttftMs fun r hr => h r (List.mem_of_mem_filter hr)

/-- **Rounding before ranking**: the report of rounded results fails exactly where the one of the exact
results does, and has the same counts, the rounded p95s and maximum, and medians off by half a
tenth; every number it prints is within half a unit of its last digit and half a tenth of the exact
one. -/
theorem summary_unrounded (h : Rounded exact rows) (script : Script) :
    Option.Rel Summary.Near (summary script rows)
      (summary script (rows.map (Row.unrounded exact))) := by
  cases script with
  | multiSession =>
    simp only [summary]
    rw [map_ttftMs h, map_tpotMs h]
    generalize (rows.map (Row.unrounded exact)).map Row.ttftMs = ttfts
    generalize (rows.map (Row.unrounded exact)).map Row.tpotMs = tpots
    have hlatency := latency_toTenths ttfts
    have hmedian := median_toTenths 1 tpots
    have hmax : (toTenths ttfts).max? = ttfts.max?.map fun x => roundTo x 1 :=
      max?_map (roundTo_mono 1) ttfts
    generalize latency (toTenths ttfts) = l, latency ttfts = l' at hlatency
    generalize median (toTenths tpots) = m, median tpots = m' at hmedian
    rw [hmax]
    cases hlatency with
    | none => exact .none
    | some hl =>
      cases ttfts.max? with
      | none => exact .none
      | some x =>
        cases hmedian with
        | none => exact .none
        | some hm => exact .some (.all hl (tenth_roundTo 0 x) hm)
  | chunkedPrefill =>
    simp only [summary]
    rw [ttftsOf_unrounded h, ttftsOf_unrounded h]
    generalize ttftsOf .chat (rows.map (Row.unrounded exact)) = chats
    generalize ttftsOf .inject (rows.map (Row.unrounded exact)) = injects
    have hchat := latency_toTenths chats
    have hinject := latency_toTenths injects
    have hnil : toTenths injects = [] ↔ injects = [] := List.map_eq_nil_iff
    generalize latency (toTenths chats) = l, latency chats = l' at hchat
    generalize latency (toTenths injects) = i, latency injects = i' at hinject
    cases hchat with
    | none => exact .none
    | some hl =>
      by_cases hempty : injects = []
      · simp only [hnil, if_pos hempty, Option.bind_eq_bind, Option.bind_some]
        exact .some (.chatOnly hl)
      · simp only [hnil, if_neg hempty, Option.bind_eq_bind, Option.bind_some]
        cases hinject with
        | none => exact .none
        | some hi => exact .some (.both hl hi)

/-- Two replies, of which the second came later. -/
def twoReplies (r : Row) : Measured where
  ttftMs := r.turn * (352 / 7)
  tpotMs := 22 / 3
  totalTokens := 3
  responseFull := []

def twoRows : List Row :=
  [⟨.session 1, 1, 503 / 10, 73 / 10, 3, 2, none⟩, ⟨.session 1, 2, 1006 / 10, 73 / 10, 3, 4, none⟩]

theorem summary_unrounded_two : Option.Rel Summary.Near (summary .multiSession twoRows)
    (summary .multiSession (twoRows.map (Row.unrounded twoReplies))) :=
  summary_unrounded (by unfold Rounded; decide +kernel) .multiSession

end InfraDemo.LoadTest
