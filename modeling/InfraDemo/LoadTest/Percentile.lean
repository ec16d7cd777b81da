import Mathlib.Tactic.Linarith
import InfraDemo.Lib.Ranks
import InfraDemo.LoadTest.Report

/-!
# Percentile — the p95 of the reports

The index `int(n * 0.95)` is below `n`, not below the upper middle of the list, and leaves at most a
twentieth of the values above it.
-/

namespace InfraDemo.LoadTest

open InfraDemo.Ranks

variable {data : List ℚ} {x : ℚ}

theorem p95_eq_rank (data : List ℚ) : p95 data = rank data (95 * data.length / 100) := rfl

/-- The median is not above the value in the upper middle. -/
theorem median_le_middle {m u : ℚ} (hm : median data = some m)
    (hu : rank data (data.length / 2) = some u) : m ≤ u := by
  unfold median at hm
  dsimp only at hm
  split_ifs at hm with hnil hodd
  · have hsome : some m = some u := hm.symm.trans hu
    exact (Option.some_inj.mp hsome).le
  · obtain ⟨low, hlow⟩ := rank_eq_some (l := data) (k := data.length / 2 - 1) (by omega)
    have hlowu : low ≤ u := rank_mono hlow hu (by omega)
    have hmean : m = (low + u) / 2 := by
      rw [show (sorted data)[data.length / 2 - 1]? = some low from hlow,
        show (sorted data)[data.length / 2]? = some u from hu] at hm
      exact (Option.some_inj.mp hm).symm
    rw [hmean]
    linarith

/-- **The p95 is a 95th percentile.** -/
theorem p95_percentile (h : data ≠ []) : 95 * data.length / 100 < data.length ∧
    ∃ x m M, p95 data = some x ∧ median data = some m ∧ data.max? = some M ∧ x ∈ data ∧
      95 * data.length ≤ 100 * data.countP (· ≤ x) ∧ 100 * data.countP (· < x) ≤ 95 * data.length ∧
      (∀ data', data'.Perm data → p95 data' = some x) ∧ m ≤ x ∧ x ≤ M := by
  have hpos : 0 < data.length := List.length_pos_of_ne_nil h
  have hindex : 95 * data.length / 100 < data.length := by omega
  have hmiddle : data.length / 2 < data.length := by omega
  obtain ⟨x, hx⟩ := rank_eq_some hindex
  obtain ⟨u, hu⟩ := rank_eq_some hmiddle
  obtain ⟨m, hm⟩ := median_eq_some h
  obtain ⟨M, hM⟩ := Option.isSome_iff_exists.mp (List.isSome_max?_of_ne_nil h)
  have hle := lt_countP_le hx
  have hlt := countP_lt_le hx
  refine ⟨hindex, x, m, M, hx, hm, hM, mem_of_rank hx, by omega, by omega, ?_, ?_, rank_le_max? hx hM⟩
  · intro data' hperm
    rw [p95_eq_rank, hperm.length_eq, rank_congr hperm, hx]
  · exact (median_le_middle hm hu).trans (rank_mono hu hx (by omega))

/-- One slow request of three. -/
theorem p95_percentile_three : ∃ x m M, p95 [30, 900, 20] = some x ∧
    median [30, 900, 20] = some m ∧ ([30, 900, 20] : List ℚ).max? = some M ∧ m ≤ x ∧ x ≤ M := by
  have hne : ([30, 900, 20] : List ℚ) ≠ [] := List.cons_ne_nil _ _
  obtain ⟨-, x, m, M, hx, hm, hM, -, -, -, -, hmx, hxM⟩ := p95_percentile hne
  exact ⟨x, m, M, hx, hm, hM, hmx, hxM⟩

end InfraDemo.LoadTest
