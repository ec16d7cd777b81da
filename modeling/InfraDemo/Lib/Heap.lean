import Mathlib.Data.List.Basic
import Mathlib.Logic.Function.Basic
import Mathlib.Order.Nat
import Mathlib.Tactic.Common

/-!
# Heap — cells with owners, and slices of arrays

Cells are allocated at the end of a heap and written in place.  An operation of one owner that writes
its own cell, or moves to a new one, is a `Moves`.  Where no two owners have a cell in common
(`Apart`), such an operation leaves the cells of all the others (`Apart.others`) and no two owners
get a cell in common (`Apart.move`).

A `Slice` is an array with a length and a capacity, as in Go: `append` writes behind the length while
there is room, and moves to a new array after that.
-/

namespace InfraDemo

/-- The cells at the addresses from 0 on. -/
structure Heap (β : Type*) where
  cells : List β

namespace Heap

variable {β : Type*} {h h₁ h₂ : Heap β} {own own₁ own₂ : Option ℕ} {a b : ℕ} {x : β}

def get? (h : Heap β) (a : ℕ) : Option β := h.cells[a]?

/-- The first free address. -/
def fresh (h : Heap β) : ℕ := h.cells.length

/-- `x` in a new cell. -/
def alloc (h : Heap β) (x : β) : Heap β := ⟨h.cells ++ [x]⟩

def write (h : Heap β) (a : ℕ) (x : β) : Heap β := ⟨h.cells.set a x⟩

theorem get?_alloc_fresh (h : Heap β) (x : β) : (h.alloc x).get? h.fresh = some x :=
  List.getElem?_concat_length

theorem get?_alloc (ha : a < h.fresh) (x : β) : (h.alloc x).get? a = h.get? a :=
  List.getElem?_append_left ha

@[simp] theorem fresh_alloc (h : Heap β) (x : β) : (h.alloc x).fresh = h.fresh + 1 :=
  List.length_append

theorem get?_write_self (ha : a < h.fresh) (x : β) : (h.write a x).get? a = some x :=
  List.getElem?_set_self ha

theorem get?_write_ne (hab : a ≠ b) (x : β) : (h.write a x).get? b = h.get? b :=
  List.getElem?_set_ne hab

@[simp] theorem fresh_write (h : Heap β) (a : ℕ) (x : β) : (h.write a x).fresh = h.fresh :=
  List.length_set

theorem lt_fresh (ha : h.get? a = some x) : a < h.fresh := (List.getElem?_eq_some_iff.mp ha).1

/-! ### One owner -/

/-- The owner of the cell `own` works on the heap `h`: it leaves every other cell, and in the heap `h'`
owns its old cell, a new one or none. -/
structure Moves (h : Heap β) (own : Option ℕ) (h' : Heap β) (own' : Option ℕ) : Prop where
  fresh_le : h.fresh ≤ h'.fresh
  kept : ∀ a, a < h.fresh → own ≠ some a → h'.get? a = h.get? a
  owns : ∀ a, own' = some a → own = some a ∨ h.fresh ≤ a

theorem Moves.refl (h : Heap β) (own : Option ℕ) : Moves h own h own :=
  ⟨le_rfl, fun _ _ _ => rfl, fun _ ha => .inl ha⟩

theorem Moves.trans (h₀₁ : Moves h own h₁ own₁) (h₁₂ : Moves h₁ own₁ h₂ own₂) :
    Moves h own h₂ own₂ := by
  refine ⟨h₀₁.fresh_le.trans h₁₂.fresh_le, fun a ha hown => ?_, fun a ha => ?_⟩
  · have hown₁ : own₁ ≠ some a := by
      intro heq
      rcases h₀₁.owns a heq with hold | hnew
      · exact hown hold
      · omega
    rw [h₁₂.kept a (lt_of_lt_of_le ha h₀₁.fresh_le) hown₁, h₀₁.kept a ha hown]
  · rcases h₁₂.owns a ha with hold | hnew
    · exact h₀₁.owns a hold
    · exact .inr (h₀₁.fresh_le.trans hnew)

/-- Nothing is written, and the cell is given up. -/
theorem moves_none (h : Heap β) (own : Option ℕ) : Moves h own h none :=
  ⟨le_rfl, fun _ _ _ => rfl, fun _ ha => (by cases ha)⟩

theorem moves_alloc (h : Heap β) (own : Option ℕ) (x : β) :
    Moves h own (h.alloc x) (some h.fresh) :=
  ⟨by simp, fun _ ha _ => get?_alloc ha x, fun _ ha => .inr (Option.some_inj.mp ha).le⟩

theorem moves_write (h : Heap β) (a : ℕ) (x : β) :
    Moves h (some a) (h.write a x) (some a) :=
  ⟨by simp, fun _ _ hne => get?_write_ne (fun heq => hne (congrArg some heq)) x,
    fun _ ha => .inl ha⟩

/-! ### Many owners -/

/-- No two owners have a cell in common. -/
structure Apart {ι : Type*} (h : Heap β) (own : ι → Option ℕ) : Prop where
  bound : ∀ i a, own i = some a → a < h.fresh
  inj : ∀ i j a, own i = some a → own j = some a → i = j

namespace Apart

variable {ι : Type*} {owner : ι → Option ℕ} {h' : Heap β} {own' : Option ℕ} {i j : ι}

/-- **The cells of the others**: nobody else's cell is written. -/
theorem others (h₀ : Apart h owner) (hmove : Moves h (owner i) h' own') (hij : j ≠ i)
    (ha : owner j = some a) : h'.get? a = h.get? a := by
  refine hmove.kept a (h₀.bound j a ha) fun hown => hij ?_
  exact h₀.inj j i a ha hown

/-- **They stay apart**. -/
theorem move [DecidableEq ι] (h₀ : Apart h owner) (hmove : Moves h (owner i) h' own')
    (hbound : ∀ a, own' = some a → a < h'.fresh) : Apart h' (Function.update owner i own') := by
  have hothers : ∀ j a, j ≠ i → owner j = some a → own' ≠ some a := by
    intro j a hj ha hown
    rcases hmove.owns a hown with hold | hnew
    · exact hj (h₀.inj j i a ha hold)
    · have hlt := h₀.bound j a ha
      omega
  constructor
  · intro j a ha
    by_cases hj : j = i
    · subst hj
      rw [Function.update_self] at ha
      exact hbound a ha
    · rw [Function.update_of_ne hj] at ha
      exact lt_of_lt_of_le (h₀.bound j a ha) hmove.fresh_le
  · intro j k a hja hka
    by_cases hj : j = i
    · by_cases hk : k = i
      · exact hj.trans hk.symm
      · rw [hj, Function.update_self] at hja
        rw [Function.update_of_ne hk] at hka
        exact absurd hja (hothers k a hk hka)
    · rw [Function.update_of_ne hj] at hja
      by_cases hk : k = i
      · rw [hk, Function.update_self] at hka
        exact absurd hka (hothers j a hj hja)
      · rw [Function.update_of_ne hk] at hka
        exact h₀.inj j k a hja hka

end Apart

end Heap

/-! ### Slices -/

/-- The slots up to `len` of an array with `cap` slots. -/
structure Slice where
  addr : ℕ
  len : ℕ
  cap : ℕ
  deriving DecidableEq

namespace Slice

open Heap

variable {α : Type*} {h h' : Heap (List α)} {s : Option Slice} {x : α} {i : ℕ}

/-- The address of a slice, which may be nil. -/
def addr? (s : Option Slice) : Option ℕ := s.map Slice.addr

def elems (h : Heap (List α)) : Option Slice → List α
  | none => []
  | some s => ((h.get? s.addr).getD []).take s.len

/-- There is such an array. -/
def Valid (h : Heap (List α)) : Option Slice → Prop
  | none => True
  | some s => ∃ xs, h.get? s.addr = some xs ∧ xs.length = s.cap ∧ s.len ≤ s.cap

/-- `make`, and the elements. -/
def make (h : Heap (List α)) (xs : List α) : Heap (List α) × Option Slice :=
  (h.alloc xs, some ⟨h.fresh, xs.length, xs.length⟩)

/-- `s[i] = x` -/
def store (h : Heap (List α)) (s : Option Slice) (i : ℕ) (x : α) : Heap (List α) :=
  match s with
  | none => h
  | some s => h.write s.addr (((h.get? s.addr).getD []).set i x)

/-- `append(s, x)`; a new array gets `spare n` more slots than it needs for `n` elements. -/
def append (spare : ℕ → List α) (h : Heap (List α)) (s : Option Slice) (x : α) :
    Heap (List α) × Option Slice :=
  let grown := elems h s ++ [x]
  let array := grown ++ spare grown.length
  match s with
  | none => (h.alloc array, some ⟨h.fresh, grown.length, array.length⟩)
  | some s =>
    if s.len < s.cap then
      (h.write s.addr (((h.get? s.addr).getD []).set s.len x), some { s with len := s.len + 1 })
    else (h.alloc array, some ⟨h.fresh, grown.length, array.length⟩)

/-- A slice is known by the cell of its array. -/
theorem elems_congr (hs : ∀ a, addr? s = some a → h'.get? a = h.get? a) :
    elems h' s = elems h s := by
  cases s with
  | none => rfl
  | some s => rw [elems, elems, hs s.addr rfl]

theorem Valid.congr (hv : Valid h s) (hs : ∀ a, addr? s = some a → h'.get? a = h.get? a) :
    Valid h' s := by
  cases s with
  | none => trivial
  | some s =>
    obtain ⟨xs, hxs, hlen⟩ := hv
    exact ⟨xs, (hs s.addr rfl).trans hxs, hlen⟩

theorem Valid.lt_fresh (hv : Valid h s) {a : ℕ} (ha : addr? s = some a) : a < h.fresh := by
  cases s with
  | none => cases ha
  | some s =>
    obtain ⟨xs, hxs, -⟩ := hv
    obtain rfl := Option.some_inj.mp ha
    exact Heap.lt_fresh hxs

/-- What an operation of the owner of a slice gives: a slice with these elements. -/
structure Result (h : Heap (List α)) (s : Option Slice) (xs : List α)
    (r : Heap (List α) × Option Slice) : Prop where
  moves : Moves h (addr? s) r.1 (addr? r.2)
  valid : Valid r.1 r.2
  elems : elems r.1 r.2 = xs

/-- A new array whose first slots are `xs`. -/
theorem result_alloc (h : Heap (List α)) (s : Option Slice) (xs ys : List α) :
    Result h s xs (h.alloc (xs ++ ys), some ⟨h.fresh, xs.length, (xs ++ ys).length⟩) := by
  refine ⟨moves_alloc h _ _, ⟨xs ++ ys, get?_alloc_fresh h _, rfl, ?_⟩, ?_⟩
  · simp
  · rw [Slice.elems, get?_alloc_fresh, Option.getD_some, List.take_left]

theorem result_make (h : Heap (List α)) (s : Option Slice) (xs : List α) :
    Result h s xs (make h xs) := by
  have hresult : Result h s xs _ := result_alloc h s xs []
  rwa [List.append_nil] at hresult

theorem result_store (hv : Valid h s) (i : ℕ) (x : α) :
    Result h s ((Slice.elems h s).set i x) (store h s i x, s) := by
  cases s with
  | none => exact ⟨Moves.refl h none, trivial, rfl⟩
  | some s =>
    obtain ⟨xs, hxs, hcap, hlen⟩ := hv
    have hwrite : (h.write s.addr (xs.set i x)).get? s.addr = some (xs.set i x) :=
      get?_write_self (Heap.lt_fresh hxs) _
    have hstore : store h (some s) i x = h.write s.addr (xs.set i x) := by
      rw [store, hxs, Option.getD_some]
    rw [hstore]
    refine ⟨moves_write h s.addr _, ⟨xs.set i x, hwrite, ?_, hlen⟩, ?_⟩
    · rw [List.length_set]
      exact hcap
    · rw [Slice.elems, Slice.elems, hwrite, hxs, Option.getD_some, Option.getD_some, List.take_set]

theorem result_append (spare : ℕ → List α) (hv : Valid h s) (x : α) :
    Result h s (Slice.elems h s ++ [x]) (append spare h s x) := by
  cases s with
  | none => exact result_alloc h none _ _
  | some s =>
    by_cases hroom : s.len < s.cap
    · obtain ⟨xs, hxs, hcap, hlen⟩ := hv
      have hlt : s.len < xs.length := hcap ▸ hroom
      have hwrite : (h.write s.addr (xs.set s.len x)).get? s.addr = some (xs.set s.len x) :=
        get?_write_self (Heap.lt_fresh hxs) _
      have happend : append spare h (some s) x =
          (h.write s.addr (xs.set s.len x), some { s with len := s.len + 1 }) := by
        simp only [append, if_pos hroom, hxs, Option.getD_some]
      rw [happend]
      refine ⟨moves_write h s.addr _, ⟨xs.set s.len x, hwrite, ?_, hroom⟩, ?_⟩
      · rw [List.length_set]
        exact hcap
      · rw [Slice.elems, Slice.elems, hwrite, hxs, Option.getD_some, Option.getD_some,
          List.take_add_one, List.take_set_of_le le_rfl, List.getElem?_set_self hlt]
        rfl
    · simp only [append, if_neg hroom]
      exact result_alloc h (some s) _ _

/-- One operation after another. -/
theorem Result.trans {xs ys : List α} {r r' : Heap (List α) × Option Slice}
    (h₁ : Result h s xs r) (h₂ : Result r.1 r.2 ys r') : Result h s ys r' :=
  ⟨h₁.moves.trans h₂.moves, h₂.valid, h₂.elems⟩

end Slice

end InfraDemo
