import Mathlib.Tactic.Common

/-!
# WorkQueue — one key of a queue that removes duplicates and delays

A key is added at once or at a later time, however often: it is in the queue once (`dirty`) and waits
for one time, the earliest (`timer`).  A queue may keep the two apart or forget the later one, so the
laws of a `Queue` leave that open.  `tokens` counts the two: an addition makes at most one more, taking
the key makes one less, so who adds a key as often as it is taken keeps one loop going.
-/

namespace InfraDemo.WorkQueue

/-- What the queue knows of a key. -/
structure Slot (τ : Type) where
  dirty : Bool := false
  timer : Option τ := none
  deriving DecidableEq

/-- What a queue does to a key: it is added at once or at a time, its delay ends, a worker takes it. -/
structure Queue (τ : Type) [Min τ] where
  Add : Slot τ → Slot τ → Prop
  AddAfter : τ → Slot τ → Slot τ → Prop
  Fire : Slot τ → Slot τ → Prop
  Take : Slot τ → Slot τ → Prop
  add_dirty : ∀ {q q' : Slot τ}, Add q q' → q'.dirty = true
  add_timer : ∀ {q q' : Slot τ}, Add q q' → q'.timer = q.timer ∨ q'.timer = none
  addAfter_dirty : ∀ {t : τ} {q q' : Slot τ}, AddAfter t q q' → q'.dirty = q.dirty
  /-- the earlier time counts, and a key that is in the queue need not wait for any -/
  addAfter_timer : ∀ {t : τ} {q q' : Slot τ}, AddAfter t q q' →
    q'.timer = some (q.timer.elim t (min t)) ∨ q.dirty = true ∧ q'.timer = q.timer
  fire_dirty : ∀ {q q' : Slot τ}, Fire q q' → q'.dirty = true
  fire_timer : ∀ {q q' : Slot τ}, Fire q q' → q'.timer = none
  take_dirty : ∀ {q q' : Slot τ}, Take q q' → q'.dirty = false
  take_timer : ∀ {q q' : Slot τ}, Take q q' → q'.timer = q.timer

namespace Slot

variable {τ : Type} {q : Slot τ}

/-- The key will be taken. -/
def Scheduled (q : Slot τ) : Prop := q.dirty = true ∨ q.timer ≠ none

def tokens (q : Slot τ) : ℕ := q.dirty.toNat + q.timer.isSome.toNat

theorem tokens_eq_zero : q.tokens = 0 ↔ q = {} := by
  obtain ⟨dirty, timer⟩ := q
  cases dirty <;> cases timer <;> simp [tokens]

end Slot

namespace Queue

variable {τ : Type} [Min τ]

/-- A queue that keeps the two apart. -/
def apart : Queue τ where
  Add q q' := q' = { q with dirty := true }
  AddAfter t q q' := q' = { q with timer := some (q.timer.elim t (min t)) }
  Fire _ q' := q' = { dirty := true }
  Take q q' := q' = { q with dirty := false }
  add_dirty h := h ▸ rfl
  add_timer h := .inl (h ▸ rfl)
  addAfter_dirty h := h ▸ rfl
  addAfter_timer h := .inl (h ▸ rfl)
  fire_dirty h := h ▸ rfl
  fire_timer h := h ▸ rfl
  take_dirty h := h ▸ rfl
  take_timer h := h ▸ rfl

variable (Q : Queue τ) {q q' : Slot τ} {t : τ}

theorem add_scheduled (h : Q.Add q q') : q'.Scheduled := .inl (Q.add_dirty h)

theorem addAfter_scheduled (h : Q.AddAfter t q q') : q'.Scheduled := by
  rcases Q.addAfter_timer h with htimer | ⟨hdirty, -⟩
  · exact .inr (by rw [htimer]; exact Option.some_ne_none _)
  · exact .inl ((Q.addAfter_dirty h).trans hdirty)

theorem fire_scheduled (h : Q.Fire q q') : q'.Scheduled := .inl (Q.fire_dirty h)

theorem tokens_add_le (h : Q.Add q q') : q'.tokens ≤ q.tokens + 1 := by
  have hdirty := Q.add_dirty h
  rcases Q.add_timer h with htimer | htimer
  · simp only [Slot.tokens, hdirty, htimer, Bool.toNat_true]
    omega
  · simp only [Slot.tokens, hdirty, htimer, Option.isSome_none, Bool.toNat_true, Bool.toNat_false]
    omega

theorem tokens_addAfter_le (h : Q.AddAfter t q q') : q'.tokens ≤ q.tokens + 1 := by
  have hdirty := Q.addAfter_dirty h
  rcases Q.addAfter_timer h with htimer | ⟨-, htimer⟩
  · simp only [Slot.tokens, hdirty, htimer, Option.isSome_some, Bool.toNat_true]
    omega
  · simp only [Slot.tokens, hdirty, htimer]
    exact Nat.le_succ _

theorem tokens_fire_le (h : Q.Fire q q') (hq : q.timer ≠ none) : q'.tokens ≤ q.tokens := by
  obtain ⟨u, hu⟩ := Option.ne_none_iff_exists'.mp hq
  simp only [Slot.tokens, Q.fire_dirty h, Q.fire_timer h, hu, Option.isSome_none,
    Option.isSome_some, Bool.toNat_true, Bool.toNat_false]
  omega

theorem tokens_take (h : Q.Take q q') (hq : q.dirty = true) : q'.tokens + 1 = q.tokens := by
  simp only [Slot.tokens, Q.take_dirty h, Q.take_timer h, hq, Bool.toNat_true, Bool.toNat_false]
  omega

/-- A key that nothing else asks for waits for the time it is given. -/
theorem addAfter_eq (h : Q.AddAfter t q q') (h0 : q.tokens = 0) :
    q'.dirty = false ∧ q'.timer = some t := by
  obtain rfl := Slot.tokens_eq_zero.mp h0
  refine ⟨Q.addAfter_dirty h, ?_⟩
  rcases Q.addAfter_timer h with htimer | ⟨hdirty, -⟩
  · exact htimer
  · cases hdirty

end Queue

end InfraDemo.WorkQueue
