import Mathlib.Algebra.Group.Nat.Even
import Mathlib.Data.List.Induction
import Mathlib.Data.Set.Card

/-!
# Blocks — maximal runs of indices with a property

`[i, j)` is a block of `P` when `P` holds inside and neither before `i` nor at `j`.  A block is known
by its first index (`starts_iff`) and by the index that follows it (`follows_iff`); where `P` ends,
there are as many blocks as first indices (`ncard_blocks`).  `StartsLast` is the same for the last
block of a list that grows at its end.

`changes` lists the changes of a Boolean sequence, at each of which a block begins or ends: they
alternate, and they are even in number exactly when the sequence ends as it began.
-/

namespace InfraDemo.Blocks

variable {P : ℕ → Prop} {i j n : ℕ}

/-- `[i, j)` is a maximal run of indices with `P`. -/
structure IsBlock (P : ℕ → Prop) (i j : ℕ) : Prop where
  lt : i < j
  inside : ∀ k, i ≤ k → k < j → P k
  left : i = 0 ∨ ¬ P (i - 1)
  right : ¬ P j

/-- A block of `P` starts at `i`. -/
def Starts (P : ℕ → Prop) (i : ℕ) : Prop := P i ∧ (i = 0 ∨ ¬ P (i - 1))

instance [DecidablePred P] : DecidablePred (Starts P) :=
  fun i => inferInstanceAs (Decidable (P i ∧ (i = 0 ∨ ¬ P (i - 1))))

/-- A block that starts at `i` ends at one place. -/
theorem IsBlock.right_unique (h : IsBlock P i j) (h' : IsBlock P i n) : j = n := by
  rcases lt_trichotomy j n with hlt | heq | hgt
  · exact absurd (h'.inside j h.lt.le hlt) h.right
  · exact heq
  · exact absurd (h.inside n h'.lt.le hgt) h'.right

/-- Where `P` ends, a block starts at every index with `P` that has none before it. -/
theorem starts_iff (hn : ∀ k, n ≤ k → ¬ P k) : (∃ j, IsBlock P i j) ↔ Starts P i := by
  constructor
  · rintro ⟨j, h⟩
    exact ⟨h.inside i le_rfl h.lt, h.left⟩
  · rintro ⟨hi, hleft⟩
    classical
    have hex : ∃ j, i < j ∧ ¬ P j := by
      refine ⟨n, ?_, hn n le_rfl⟩
      by_contra hle
      exact hn i (not_lt.mp hle) hi
    obtain ⟨hlt, hright⟩ := Nat.find_spec hex
    refine ⟨Nat.find hex, hlt, fun k hik hk => ?_, hleft, hright⟩
    rcases hik.eq_or_lt with rfl | hik
    · exact hi
    · by_contra hPk
      exact Nat.find_min hex hk ⟨hik, hPk⟩

/-- An index with `P` lies in a run of such indices from a first one on. -/
theorem exists_starts : ∀ {k : ℕ}, P k → ∃ i ≤ k, Starts P i ∧ ∀ l, i ≤ l → l ≤ k → P l
  | 0, h => ⟨0, le_rfl, ⟨h, .inl rfl⟩, fun l _ hl => by rwa [Nat.le_zero.mp hl]⟩
  | k + 1, h => by
    by_cases hk : P k
    · obtain ⟨i, hi, hs, hrun⟩ := exists_starts hk
      refine ⟨i, by omega, hs, fun l hil hl => ?_⟩
      rcases Nat.le_succ_iff.mp hl with hl | rfl
      · exact hrun l hil hl
      · exact h
    · exact ⟨k + 1, le_rfl, ⟨h, .inr hk⟩, fun l h1 h2 => by rwa [le_antisymm h2 h1]⟩

/-- The indices that directly follow a block. -/
theorem follows_iff : (∃ i, IsBlock P i j) ↔ 0 < j ∧ P (j - 1) ∧ ¬ P j := by
  constructor
  · rintro ⟨i, h⟩
    have hlt := h.lt
    exact ⟨by omega, h.inside (j - 1) (by omega) (by omega), h.right⟩
  · rintro ⟨hj, hprev, hright⟩
    obtain ⟨i, hi, hs, hrun⟩ := exists_starts hprev
    exact ⟨i, by omega, fun k h1 h2 => hrun k h1 (by omega), hs.2, hright⟩

/-- **As many blocks as first indices.** -/
theorem ncard_blocks [DecidablePred P] (hn : ∀ k, n ≤ k → ¬ P k) :
    {b : ℕ × ℕ | IsBlock P b.1 b.2}.ncard = ((Finset.range n).filter (Starts P)).card := by
  have hinj : Set.InjOn Prod.fst {b : ℕ × ℕ | IsBlock P b.1 b.2} := by
    rintro ⟨i, j⟩ h ⟨i', j'⟩ h' heq
    obtain rfl : i = i' := heq
    obtain rfl : j = j' := IsBlock.right_unique h h'
    rfl
  have himage : Prod.fst '' {b : ℕ × ℕ | IsBlock P b.1 b.2} =
      ↑((Finset.range n).filter (Starts P)) := by
    ext i
    simp only [Set.mem_image, Set.mem_ofPred_eq, Prod.exists, exists_and_right, exists_eq_right,
      starts_iff hn, Finset.coe_filter, Finset.mem_range]
    refine ⟨fun h => ⟨?_, h⟩, fun h => h.2⟩
    by_contra hle
    exact hn i (not_lt.mp hle) h.1
  rw [← hinj.ncard_image, himage, Set.ncard_coe_finset]

/-- A sum over a list of ones where `S` holds of the index and zeros elsewhere. -/
theorem sum_map_eq_card {α : Type*} (l : List α) (f : α → ℕ) (S : ℕ → Prop) [DecidablePred S]
    (h : ∀ k a, l[k]? = some a → f a = if S k then 1 else 0) :
    (l.map f).sum = ((Finset.range l.length).filter S).card := by
  induction l using List.reverseRecOn with
  | nil => rfl
  | append_singleton l a ih =>
    have hl : ∀ k b, l[k]? = some b → f b = if S k then 1 else 0 := by
      intro k b hk
      obtain ⟨hlt, -⟩ := List.getElem?_eq_some_iff.mp hk
      exact h k b (by rwa [List.getElem?_append_left hlt])
    have ha : f a = if S l.length then 1 else 0 := h l.length a (by simp)
    rw [List.map_append, List.sum_append, ih hl, List.length_append, List.length_singleton,
      Finset.range_add_one, Finset.filter_insert, List.map_singleton, List.sum_singleton, ha]
    split_ifs
    · rw [Finset.card_insert_of_notMem (by simp)]
    · rfl

/-! ### The last block of a list -/

/-- `r` is the first element of the last block of elements of `l` with one value. -/
def StartsLast {α β : Type*} (val : α → β) (r : α) (l : List α) : Prop :=
  ∃ pre post, l = pre ++ r :: post ∧ (∀ x ∈ post, val x = val r) ∧
    ∀ x ∈ pre.getLast?, val x ≠ val r

section StartsLast

variable {α β : Type*} {val : α → β} {r x : α} {l : List α}

/-- The last block goes to the end of the list. -/
theorem StartsLast.eq_of_getLast? (h : StartsLast val r l) (hx : l.getLast? = some x) :
    val x = val r := by
  obtain ⟨pre, post, rfl, hpost, -⟩ := h
  rw [List.getLast?_append_of_ne_nil _ (List.cons_ne_nil _ _)] at hx
  rcases List.mem_cons.mp (List.mem_of_getLast? hx) with rfl | hmem
  · rfl
  · exact hpost x hmem

/-- An element with the value of the last block extends it. -/
theorem StartsLast.concat (h : StartsLast val r l) (hx : val x = val r) :
    StartsLast val r (l ++ [x]) := by
  obtain ⟨pre, post, rfl, hpost, hpre⟩ := h
  refine ⟨pre, post ++ [x], by simp, fun y hy => ?_, hpre⟩
  rcases List.mem_append.mp hy with hy | hy
  · exact hpost y hy
  · rw [List.mem_singleton.mp hy, hx]

/-- An element with another value than the last starts a block. -/
theorem startsLast_concat (h : ∀ y ∈ l.getLast?, val y ≠ val x) : StartsLast val x (l ++ [x]) :=
  ⟨l, [], rfl, fun _ hy => absurd hy List.not_mem_nil, h⟩

end StartsLast

/-! ### Changes -/

/-- The changes of a sequence that is `b` before it begins, each by its new value. -/
def changes (b : Bool) : List Bool → List Bool
  | [] => []
  | x :: xs => if x = b then changes b xs else x :: changes x xs

theorem changes_append (b : Bool) (xs ys : List Bool) :
    changes b (xs ++ ys) = changes b xs ++ changes (xs.getLastD b) ys := by
  induction xs generalizing b with
  | nil => rfl
  | cons x xs ih =>
    rw [List.cons_append, changes, changes, List.getLastD_cons]
    by_cases h : x = b
    · rw [if_pos h, if_pos h, ih, h]
    · rw [if_neg h, if_neg h, ih, List.cons_append]

/-- Changes alternate, the first one away from `b`. -/
theorem changes_alternate {b : Bool} {xs : List Bool} {i : ℕ} {x : Bool}
    (h : (changes b xs)[i]? = some x) : x = if Even i then !b else b := by
  induction xs generalizing b i with
  | nil => simp [changes] at h
  | cons y xs ih =>
    rw [changes] at h
    by_cases hy : y = b
    · rw [if_pos hy] at h
      exact ih h
    · rw [if_neg hy] at h
      have hyb : y = !b := by cases y <;> cases b <;> simp_all
      cases i with
      | zero =>
        simp only [List.getElem?_cons_zero, Option.some_inj] at h
        simp [← h, hyb]
      | succ i =>
        rw [List.getElem?_cons_succ] at h
        rw [ih h, hyb]
        by_cases he : Even i <;> simp [he, Nat.even_add_one]

/-- The changes are even in number exactly when the sequence ends as it began. -/
theorem even_length_changes {b : Bool} {xs : List Bool} :
    Even (changes b xs).length ↔ xs.getLastD b = b := by
  induction xs generalizing b with
  | nil => simp [changes]
  | cons x xs ih =>
    rw [changes, List.getLastD_cons]
    by_cases h : x = b
    · rw [if_pos h, ih, h]
    · rw [if_neg h, List.length_cons, Nat.even_add_one, ih]
      have hx : x = !b := by cases x <;> cases b <;> simp_all
      rw [hx]
      cases xs.getLastD (!b) <;> cases b <;> simp

end InfraDemo.Blocks
