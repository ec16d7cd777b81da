import Mathlib.Data.Finset.Card
import Mathlib.Data.List.Perm.Basic

/-!
# Pool — tasks that are started, run and are collected once

Tasks are numbered in the order of their start.  A `Pool` is how many were started, which of them run
and in which order the others were collected; that every started task does exactly one of the two is
a field, so a pool that loses a task or collects one twice cannot be built.  The two operations are
`start` and `collect`.
-/

namespace InfraDemo

structure Pool where
  started : ℕ
  running : Finset ℕ
  collected : List ℕ
  nodup : collected.Nodup
  disjoint : ∀ i ∈ running, i ∉ collected
  cover : ∀ i, i < started ↔ i ∈ running ∨ i ∈ collected

namespace Pool

/-- `n` tasks run, none was collected. -/
def fresh (n : ℕ) : Pool where
  started := n
  running := Finset.range n
  collected := []
  nodup := List.nodup_nil
  disjoint _ _ := List.not_mem_nil
  cover i := by simp

variable (p : Pool)

theorem lt_of_mem {i : ℕ} (h : i ∈ p.running) : i < p.started := (p.cover i).mpr (.inl h)

theorem started_notMem : p.started ∉ p.running := fun h => absurd (p.lt_of_mem h) (lt_irrefl _)

/-- One more task runs. -/
def start : Pool where
  started := p.started + 1
  running := insert p.started p.running
  collected := p.collected
  nodup := p.nodup
  disjoint := by
    intro i hi hc
    rcases Finset.mem_insert.mp hi with rfl | hi
    · exact absurd ((p.cover p.started).mpr (.inr hc)) (lt_irrefl _)
    · exact p.disjoint i hi hc
  cover := by
    intro i
    rw [Finset.mem_insert, Nat.lt_succ_iff_lt_or_eq, p.cover i]
    constructor
    · rintro ((h | h) | rfl)
      · exact .inl (.inr h)
      · exact .inr h
      · exact .inl (.inl rfl)
    · rintro ((rfl | h) | h)
      · exact .inr rfl
      · exact .inl (.inl h)
      · exact .inl (.inr h)

/-- A running task is collected. -/
def collect (i : ℕ) (hi : i ∈ p.running) : Pool where
  started := p.started
  running := p.running.erase i
  collected := p.collected ++ [i]
  nodup := by
    rw [List.nodup_append]
    refine ⟨p.nodup, List.nodup_singleton i, ?_⟩
    intro j hj k hk hjk
    obtain rfl := List.mem_singleton.mp hk
    exact p.disjoint k hi (hjk ▸ hj)
  disjoint := by
    intro j hj hc
    obtain ⟨hji, hj⟩ := Finset.mem_erase.mp hj
    rcases List.mem_append.mp hc with hc | hc
    · exact p.disjoint j hj hc
    · exact hji (List.mem_singleton.mp hc)
  cover := by
    intro j
    rw [p.cover j, Finset.mem_erase, List.mem_append, List.mem_singleton]
    constructor
    · rintro (h | h)
      · by_cases hji : j = i
        · exact .inr (.inr hji)
        · exact .inl ⟨hji, h⟩
      · exact .inr (.inl h)
    · rintro (⟨-, h⟩ | h | rfl)
      · exact .inl h
      · exact .inr h
      · exact .inl hi

@[simp] theorem card_start : p.start.running.card = p.running.card + 1 :=
  Finset.card_insert_of_notMem p.started_notMem

theorem card_collect {i : ℕ} (hi : i ∈ p.running) :
    (p.collect i hi).running.card + 1 = p.running.card := Finset.card_erase_add_one hi

/-- Running and collected tasks make up the started ones. -/
theorem card_running : p.running.card + p.collected.length = p.started := by
  have hdisj : Disjoint p.running p.collected.toFinset := by
    rw [Finset.disjoint_left]
    exact fun i hi hc => p.disjoint i hi (List.mem_toFinset.mp hc)
  have hcover : p.running ∪ p.collected.toFinset = Finset.range p.started := by
    ext i
    rw [Finset.mem_union, List.mem_toFinset, Finset.mem_range, p.cover i]
  rw [← List.toFinset_card_of_nodup p.nodup, ← Finset.card_union_of_disjoint hdisj, hcover,
    Finset.card_range]

/-- A started task runs, or was collected once. -/
theorem running_or_collected {i : ℕ} (hi : i < p.started) :
    (i ∈ p.running ∧ p.collected.count i = 0) ∨ (i ∉ p.running ∧ p.collected.count i = 1) := by
  rcases (p.cover i).mp hi with h | h
  · exact .inl ⟨h, List.count_eq_zero.mpr (p.disjoint i h)⟩
  · exact .inr ⟨fun hr => p.disjoint i hr h, List.count_eq_one_of_mem p.nodup h⟩

/-- When nothing runs, every task was collected. -/
theorem collected_perm (h : p.running = ∅) : p.collected.Perm (List.range p.started) := by
  rw [List.perm_ext_iff_of_nodup p.nodup List.nodup_range]
  intro i
  rw [List.mem_range, p.cover i, h]
  simp

end Pool

end InfraDemo
