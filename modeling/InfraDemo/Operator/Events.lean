import Mathlib.Data.Fintype.Option
import Mathlib.Data.List.Forall2
import InfraDemo.Operator.Exits

/-!
# Events — what a call announces

A call is classified by its `Outcome`, which is also what it records as the reason of its status.
Which events it emits depends on its outcome and the reason recorded before it and on nothing else:
`announced` is that table and `events_show` says that the events are the table's entry, one by one
and in order.
-/

namespace InfraDemo.Operator

open InfraDemo.Go

/-! ### Outcomes -/

/-- How a call that could read its object ended. -/
inductive Outcome where
  | metricsFailed | readFailed | updateFailed | scaledUp | scaledDown | held
  deriving DecidableEq, Repr

instance : Fintype Outcome where
  elems := {.metricsFailed, .readFailed, .updateFailed, .scaledUp, .scaledDown, .held}
  complete := by rintro (_ | _ | _ | _ | _ | _) <;> simp

/-- The reason an outcome is recorded under. -/
def Outcome.reason : Outcome → String
  | .metricsFailed => reasonMetricsUnavailable
  | .readFailed => reasonTargetDeploymentNotFound
  | .updateFailed => reasonScaleFailed
  | .scaledUp => reasonScaledUp
  | .scaledDown => reasonScaledDown
  | .held => reasonHolding

theorem Outcome.reason_injective : Function.Injective Outcome.reason := by
  have h : ∀ a b : Outcome, a.reason = b.reason → a = b := by decide
  exact fun a b => h a b

theorem Outcome.reason_ne_recovered (o : Outcome) : o.reason ≠ reasonRecovered := by
  revert o
  decide

/-- The outcome of an exit path; an unreadable object has none. -/
def Exit.outcome? (w : World) : Exit → Option Outcome
  | .unreadable _ => none
  | .metricsUnavailable _ => some .metricsFailed
  | .targetDeploymentNotFound .. => some .readFailed
  | .holding .. => some .held
  | .scaleFailed .. => some .updateFailed
  | .scaled metrics deploy _ =>
    some (if desiredOf w metrics deploy < deploy.count then .scaledDown else .scaledUp)

theorem scaleReason_eq (w : World) (metrics : Metrics) (deploy : Deployment) :
    scaleReason deploy.count (desiredOf w metrics deploy) =
      (if desiredOf w metrics deploy < deploy.count then Outcome.scaledDown
        else Outcome.scaledUp).reason := by
  unfold scaleReason
  split_ifs <;> rfl

/-- The Available condition an outcome is recorded with. -/
def Outcome.available : Outcome → ConditionStatus
  | .metricsFailed | .readFailed => .conditionFalse
  | _ => .conditionTrue

/-- The Degraded condition an outcome is recorded with. -/
def Outcome.degraded : Outcome → ConditionStatus
  | .metricsFailed | .readFailed | .updateFailed => .conditionTrue
  | _ => .conditionFalse

/-- A path has a status update exactly when it has an outcome, and the update records it. -/
theorem update?_outcome? (w : World) (x : Exit) :
    (x.update? w = none ∧ x.outcome? w = none) ∨ ∃ u o, x.update? w = some u ∧
      x.outcome? w = some o ∧ u.reason = o.reason ∧ u.available = o.available ∧
      u.degraded = o.degraded := by
  cases x with
  | unreadable err => exact .inl ⟨rfl, rfl⟩
  | scaled metrics deploy s =>
    refine .inr ⟨_, _, rfl, rfl, scaleReason_eq w metrics deploy, ?_, ?_⟩
    · split_ifs <;> rfl
    · split_ifs <;> rfl
  | _ => exact .inr ⟨_, _, rfl, rfl, rfl, rfl, rfl⟩

/-! ### Marks -/

/-- What an event says, leaving out its object and the details in its text. -/
inductive Mark where
  | warning (o : Outcome)
  | recovered (o : Outcome)
  | scaled (o : Outcome)
  deriving DecidableEq

/-- The event says `m`. -/
def Event.Shows (e : Event) : Mark → Prop
  | .warning o => e.type = .warning ∧ e.reason = o.reason
  | .recovered o =>
    e.type = .normal ∧ e.reason = reasonRecovered ∧ e.message = "recovered from " ++ o.reason
  | .scaled o => e.type = .normal ∧ e.reason = o.reason

instance (e : Event) : DecidablePred e.Shows
  | .warning _ => inferInstanceAs (Decidable (_ ∧ _))
  | .recovered _ => inferInstanceAs (Decidable (_ ∧ _ ∧ _))
  | .scaled _ => inferInstanceAs (Decidable (_ ∧ _))

/-- An event says one thing at most. -/
theorem Event.Shows.unique {e : Event} {m m' : Mark} (h : e.Shows m) (h' : e.Shows m') : m = m' := by
  rcases m with o | o | o <;> rcases m' with o' | o' | o'
  · exact congrArg _ (Outcome.reason_injective (h.2.symm.trans h'.2))
  · exact absurd (h.1.symm.trans h'.1) (by decide)
  · exact absurd (h.1.symm.trans h'.1) (by decide)
  · exact absurd (h.1.symm.trans h'.1) (by decide)
  · have hm := h.2.2.symm.trans h'.2.2
    rw [String.append_right_inj] at hm
    exact congrArg _ (Outcome.reason_injective hm)
  · exact absurd (h'.2.symm.trans h.2.1) (Outcome.reason_ne_recovered o')
  · exact absurd (h.1.symm.trans h'.1) (by decide)
  · exact absurd (h.2.symm.trans h'.2.1) (Outcome.reason_ne_recovered o)
  · exact congrArg _ (Outcome.reason_injective (h.2.symm.trans h'.2))

/-- How many events of the call say `m`. -/
def Call.count (c : Call) (m : Mark) : ℕ := c.events.countP fun e => e.Shows m

theorem countP_shows {es : List Event} {ms : List Mark} (h : List.Forall₂ Event.Shows es ms)
    (m : Mark) : (es.countP fun e => e.Shows m) = ms.count m := by
  induction h with
  | nil => rfl
  | @cons e m' es ms he _ ih =>
    rw [List.countP_cons, List.count_cons, ih]
    congr 1
    by_cases hm : m' = m
    · subst hm
      simp [he]
    · have hn : ¬ e.Shows m := fun h' => hm (he.unique h')
      simp [hn, hm]

/-! ### The table -/

/-- The outcome under whose reason `reason` was recorded, if any. -/
def Recorded (reason : String) : Option Outcome → Prop
  | some o => reason = o.reason
  | none => ∀ o : Outcome, reason ≠ o.reason

theorem recorded_empty : Recorded "" none := by
  show ∀ o : Outcome, "" ≠ o.reason
  decide

theorem Recorded.eq_iff {reason : String} {p : Option Outcome} (h : Recorded reason p)
    (o : Outcome) : reason = o.reason ↔ p = some o := by
  cases p with
  | none => exact iff_of_false (h o) (by simp)
  | some o' =>
    rw [show reason = o'.reason from h, Outcome.reason_injective.eq_iff, Option.some_inj]

/-- What a call with outcome `o` announces where outcome `p` was recorded before. -/
def announced (p : Option Outcome) (o : Outcome) : List Mark :=
  let recovery (r : Outcome) := if p = some r then [Mark.recovered r] else []
  let alarm (r : Outcome) := if p = some r then [] else [Mark.warning r]
  match o with
  | .metricsFailed => alarm .metricsFailed
  | .readFailed => recovery .metricsFailed ++ alarm .readFailed
  | .updateFailed => recovery .metricsFailed ++ recovery .readFailed ++ alarm .updateFailed
  | .held => recovery .metricsFailed ++ recovery .readFailed
  | _ => recovery .metricsFailed ++ recovery .readFailed ++ [.scaled o]

section Table

variable {w : World} {p : Option Outcome}

theorem warnOnce_shows (hp : Recorded w.wl.status.lastTransitionReason p) (o : Outcome)
    (message : String) : List.Forall₂ Event.Shows (warnOnce w.wl o.reason message)
      (if p = some o then [] else [Mark.warning o]) := by
  unfold warnOnce
  simp only [hp.eq_iff]
  split_ifs
  · exact .nil
  · exact .cons ⟨rfl, rfl⟩ .nil

theorem recoveredFrom_shows (hp : Recorded w.wl.status.lastTransitionReason p) (o : Outcome) :
    List.Forall₂ Event.Shows (recoveredFrom w.wl o.reason)
      (if p = some o then [Mark.recovered o] else []) := by
  unfold recoveredFrom
  simp only [hp.eq_iff]
  split_ifs
  · exact .cons ⟨rfl, rfl, rfl⟩ .nil
  · exact .nil

theorem scaledEventOf_shows (metrics : Metrics) (deploy : Deployment) :
    (scaledEventOf w metrics deploy).Shows (.scaled
      (if desiredOf w metrics deploy < deploy.count then .scaledDown else .scaledUp)) :=
  ⟨rfl, scaleReason_eq w metrics deploy⟩

/-- **The events of a path are the table's entry**, one by one and in order. -/
theorem events_show {x : Exit} {o : Outcome} (ho : x.outcome? w = some o)
    (hp : Recorded w.wl.status.lastTransitionReason p) :
    List.Forall₂ Event.Shows (x.events w) (announced p o) := by
  have early := recoveredFrom_shows hp .metricsFailed
  have mid := recoveredFrom_shows hp .readFailed
  cases x with
  | unreadable err => cases ho
  | metricsUnavailable err =>
    cases ho
    simp only [Exit.events, midEvents, lateEvents, List.append_nil]
    exact warnOnce_shows hp .metricsFailed err
  | targetDeploymentNotFound metrics err =>
    cases ho
    simp only [Exit.events, lateEvents, List.append_nil]
    exact List.rel_append early (warnOnce_shows hp .readFailed err.text)
  | holding metrics deploy =>
    cases ho
    simp only [Exit.events, lateEvents, List.append_nil]
    exact List.rel_append early mid
  | scaleFailed metrics deploy err =>
    cases ho
    exact List.rel_append (List.rel_append early mid) (warnOnce_shows hp .updateFailed err.text)
  | scaled metrics deploy s =>
    have late := scaledEventOf_shows (w := w) metrics deploy
    obtain rfl := Option.some_inj.mp ho
    by_cases hlt : desiredOf w metrics deploy < deploy.count
    · simp only [if_pos hlt] at late ⊢
      exact List.rel_append (List.rel_append early mid) (.cons late .nil)
    · simp only [if_neg hlt] at late ⊢
      exact List.rel_append (List.rel_append early mid) (.cons late .nil)

theorem exists_recorded (reason : String) : ∃ p, Recorded reason p := by
  by_cases h : ∃ o : Outcome, reason = o.reason
  · obtain ⟨o, ho⟩ := h
    exact ⟨some o, ho⟩
  · exact ⟨none, not_exists.mp h⟩

/-- What an event of a path says stands in the table. -/
theorem mem_announced {x : Exit} {e : Event} {m : Mark} (he : e ∈ x.events w) (hm : e.Shows m) :
    ∃ p o, x.outcome? w = some o ∧ m ∈ announced p o := by
  obtain ⟨p, hp⟩ := exists_recorded w.wl.status.lastTransitionReason
  cases ho : x.outcome? w with
  | none => cases x <;> first | cases he | cases ho
  | some o =>
    refine ⟨p, o, rfl, List.count_pos_iff.mp ?_⟩
    rw [← countP_shows (events_show ho hp), List.countP_pos_iff]
    exact ⟨e, he, by simpa using hm⟩

end Table

/-- Only a call that scaled reports a scaling, and in its direction. -/
theorem scaled_mem_announced : ∀ (p : Option Outcome) (o o' : Outcome),
    Mark.scaled o' ∈ announced p o → o = o' ∧ (o = .scaledUp ∨ o = .scaledDown) := by
  decide

end InfraDemo.Operator
