import Mathlib.Data.List.Sort
import Mathlib.Order.MinMax

/-!
# Ranks — the values of a list in order

`rank l k` is the value at place `k` of the sorted list.  More than `k` values are at most it
(`lt_countP_le`) and at most `k` are below it (`countP_lt_le`), with ties or without.
-/

namespace InfraDemo.Ranks

variable {α : Type} [LinearOrder α]

def ordered (l : List α) : List α := l.mergeSort fun x y => decide (x ≤ y)

def rank (l : List α) (k : ℕ) : Option α := (ordered l)[k]?

variable {l l' : List α} {k j : ℕ} {x y : α}

theorem ordered_perm (l : List α) : (ordered l).Perm l := List.mergeSort_perm l _

theorem length_ordered (l : List α) : (ordered l).length = l.length := (ordered_perm l).length_eq

theorem ordered_pairwise (l : List α) : (ordered l).Pairwise (· ≤ ·) := by
  have htrans : ∀ x y z : α, decide (x ≤ y) → decide (y ≤ z) → decide (x ≤ z) := by
    intro x y z hxy hyz
    exact decide_eq_true (le_trans (of_decide_eq_true hxy) (of_decide_eq_true hyz))
  have htotal : ∀ x y : α, decide (x ≤ y) || decide (y ≤ x) := by
    intro x y
    simpa using le_total x y
  exact (List.pairwise_mergeSort htrans htotal l).imp fun hxy => of_decide_eq_true hxy

theorem ordered_congr (h : l.Perm l') : ordered l = ordered l' :=
  List.Perm.eq_of_pairwise (fun _ _ _ _ hxy hyx => le_antisymm hxy hyx) (ordered_pairwise l)
    (ordered_pairwise l') ((ordered_perm l).trans (h.trans (ordered_perm l').symm))

theorem rank_congr (h : l.Perm l') (k : ℕ) : rank l k = rank l' k := by
  rw [rank, rank, ordered_congr h]

theorem rank_eq_some (hk : k < l.length) : ∃ x, rank l k = some x :=
  ⟨_, List.getElem?_eq_getElem ((length_ordered l).symm ▸ hk)⟩

theorem mem_of_rank (h : rank l k = some x) : x ∈ l :=
  (ordered_perm l).mem_iff.mp (List.mem_of_getElem? h)

theorem rank_mono (hx : rank l j = some x) (hy : rank l k = some y) (hjk : j ≤ k) : x ≤ y := by
  obtain ⟨hj, rfl⟩ := List.getElem?_eq_some_iff.mp hx
  obtain ⟨hk, rfl⟩ := List.getElem?_eq_some_iff.mp hy
  rcases hjk.eq_or_lt with rfl | hlt
  · exact le_rfl
  · exact List.pairwise_iff_getElem.mp (ordered_pairwise l) j k hj hk hlt

/-- More than `k` values are at most the one of rank `k`. -/
theorem lt_countP_le (h : rank l k = some x) : k < l.countP (· ≤ x) := by
  obtain ⟨hk, -⟩ := List.getElem?_eq_some_iff.mp h
  have htake : ∀ y ∈ (ordered l).take (k + 1), decide (y ≤ x) := by
    intro y hy
    obtain ⟨i, hi⟩ := List.mem_iff_getElem?.mp hy
    rw [List.getElem?_take] at hi
    split_ifs at hi with hik
    exact decide_eq_true (rank_mono hi h (by omega))
  calc k < ((ordered l).take (k + 1)).length := by rw [List.length_take]; omega
    _ = ((ordered l).take (k + 1)).countP (· ≤ x) := (List.countP_eq_length.mpr htake).symm
    _ ≤ (ordered l).countP (· ≤ x) := (List.take_sublist _ _).countP_le
    _ = l.countP (· ≤ x) := (ordered_perm l).countP_eq _

/-- At most `k` values are below the one of rank `k`. -/
theorem countP_lt_le (h : rank l k = some x) : l.countP (· < x) ≤ k := by
  have hdrop : ((ordered l).drop k).countP (· < x) = 0 := by
    refine List.countP_eq_zero.mpr fun y hy => ?_
    obtain ⟨i, hi⟩ := List.mem_iff_getElem?.mp hy
    rw [List.getElem?_drop] at hi
    have hle : x ≤ y := rank_mono h hi (by omega)
    simpa using hle
  calc l.countP (· < x) = (ordered l).countP (· < x) := ((ordered_perm l).countP_eq _).symm
    _ = ((ordered l).take k ++ (ordered l).drop k).countP (· < x) := by rw [List.take_append_drop]
    _ = ((ordered l).take k).countP (· < x) := by rw [List.countP_append, hdrop, Nat.add_zero]
    _ ≤ ((ordered l).take k).length := List.countP_le_length
    _ ≤ k := List.length_take_le _ _

/-- No rank is above the maximum. -/
theorem rank_le_max? (h : rank l k = some x) (hy : l.max? = some y) : x ≤ y :=
  (List.max?_le_iff hy).mp le_rfl x (mem_of_rank h)

/-- The last rank is the maximum. -/
theorem rank_last (h : l ≠ []) : rank l (l.length - 1) = l.max? := by
  have hpos : 0 < l.length := List.length_pos_of_ne_nil h
  obtain ⟨x, hx⟩ := rank_eq_some (l := l) (k := l.length - 1) (by omega)
  rw [hx]
  refine (List.max?_eq_some_iff.mpr ⟨mem_of_rank hx, fun y hy => ?_⟩).symm
  obtain ⟨i, hi⟩ := List.mem_iff_getElem?.mp ((ordered_perm l).mem_iff.mpr hy)
  have hlt : i < (ordered l).length := (List.getElem?_eq_some_iff.mp hi).1
  rw [length_ordered] at hlt
  exact rank_mono hi hx (by omega)

/-! ### Monotone maps -/

section Map

variable {β : Type} [LinearOrder β] {f : α → β}

/-- A monotone map may come before the sort or after it. -/
theorem ordered_map (hf : Monotone f) (l : List α) : ordered (l.map f) = (ordered l).map f := by
  have hsorted : ((ordered l).map f).Pairwise (· ≤ ·) :=
    List.pairwise_map.mpr ((ordered_pairwise l).imp fun hxy => hf hxy)
  refine List.Perm.eq_of_pairwise (fun _ _ _ _ hxy hyx => le_antisymm hxy hyx)
    (ordered_pairwise _) hsorted ?_
  exact (ordered_perm (l.map f)).trans ((ordered_perm l).map f).symm

theorem rank_map (hf : Monotone f) (l : List α) (k : ℕ) : rank (l.map f) k = (rank l k).map f := by
  rw [rank, rank, ordered_map hf, List.getElem?_map]

theorem max?_map (hf : Monotone f) (l : List α) : (l.map f).max? = l.max?.map f := by
  cases hmax : l.max? with
  | none =>
    rw [List.max?_eq_none_iff.mp hmax]
    rfl
  | some x =>
    refine List.max?_eq_some_iff.mpr ⟨List.mem_map_of_mem (List.max?_mem hmax), ?_⟩
    intro y hy
    obtain ⟨z, hz, rfl⟩ := List.mem_map.mp hy
    exact hf ((List.max?_le_iff hmax).mp le_rfl z hz)

end Map

/-! ### Sorting by a key -/

section Key

variable {β : Type} {f : β → α} {rows rows' : List β}

theorem mergeSort_key_pairwise (f : β → α) (rows : List β) :
    (rows.mergeSort fun x y => decide (f x ≤ f y)).Pairwise fun x y => f x ≤ f y := by
  have htrans : ∀ x y z : β, decide (f x ≤ f y) → decide (f y ≤ f z) → decide (f x ≤ f z) := by
    intro x y z hxy hyz
    exact decide_eq_true (le_trans (of_decide_eq_true hxy) (of_decide_eq_true hyz))
  have htotal : ∀ x y : β, decide (f x ≤ f y) || decide (f y ≤ f x) := by
    intro x y
    simpa using le_total (f x) (f y)
  exact (List.pairwise_mergeSort htrans htotal rows).imp fun hxy => of_decide_eq_true hxy

/-- A sort by a key that tells the rows apart does not depend on their order. -/
theorem mergeSort_key_congr (h : rows.Perm rows') (hkeys : (rows.map f).Nodup) :
    (rows.mergeSort fun x y => decide (f x ≤ f y)) =
      rows'.mergeSort fun x y => decide (f x ≤ f y) := by
  have hrows := List.mergeSort_perm rows fun x y => decide (f x ≤ f y)
  have hrows' := List.mergeSort_perm rows' fun x y => decide (f x ≤ f y)
  refine List.Perm.eq_of_pairwise (fun x y hx hy hxy hyx => ?_) (mergeSort_key_pairwise f rows)
    (mergeSort_key_pairwise f rows') (hrows.trans (h.trans hrows'.symm))
  have hx' : x ∈ rows := hrows.mem_iff.mp hx
  have hy' : y ∈ rows := h.mem_iff.mpr (hrows'.mem_iff.mp hy)
  exact List.inj_on_of_nodup_map hkeys hx' hy' (le_antisymm hxy hyx)

end Key

end InfraDemo.Ranks
