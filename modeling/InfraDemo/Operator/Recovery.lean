import InfraDemo.Operator.Trace

/-!
# Recovery — how failures and recoveries pair up

For one observation failure the Warning and Recovered events of a run are the changes of a Boolean
sequence: did the call fail so.  So they alternate.  The exception is a metrics failure right after
a failed Deployment read: it overwrites the one reason that is remembered, and the failed read is
never recovered from (`Masked`).
-/

namespace InfraDemo.Operator

open InfraDemo.Go InfraDemo.Blocks

/-! ### Alarms of one call -/

/-- `true` for a Warning of `r`, `false` for a Recovered event naming it. -/
def Event.alarm? (r : Outcome) (e : Event) : Option Bool :=
  if e.Shows (.warning r) then some true else if e.Shows (.recovered r) then some false else none

def Mark.alarm? (r : Outcome) (m : Mark) : Option Bool :=
  if m = .warning r then some true else if m = .recovered r then some false else none

/-- The Warnings of `r` and the Recovered events naming it that a call emits, in order. -/
def Call.alarms (r : Outcome) (c : Call) : List Bool := c.events.filterMap (Event.alarm? r)

/-- The same for the entry of the table. -/
def tableAlarms (r : Outcome) (p : Option Outcome) (o : Outcome) : List Bool :=
  (announced p o).filterMap (Mark.alarm? r)

theorem Event.Shows.alarm? {e : Event} {m : Mark} (h : e.Shows m) (r : Outcome) :
    e.alarm? r = m.alarm? r := by
  have hiff : ∀ m', e.Shows m' ↔ m = m' := fun m' => ⟨h.unique, fun heq => heq ▸ h⟩
  unfold Event.alarm? Mark.alarm?
  simp only [hiff]

theorem filterMap_alarm? {es : List Event} {ms : List Mark} (h : List.Forall₂ Event.Shows es ms)
    (r : Outcome) : es.filterMap (Event.alarm? r) = ms.filterMap (Mark.alarm? r) := by
  induction h with
  | nil => rfl
  | cons he _ ih => rw [List.filterMap_cons, List.filterMap_cons, he.alarm? r, ih]

theorem table_metrics : ∀ (p : Option Outcome) (o : Outcome), tableAlarms .metricsFailed p o =
    changes (p = some .metricsFailed) [decide (o = .metricsFailed)] := by
  decide

theorem table_read : ∀ (p : Option Outcome) (o : Outcome),
    ¬ (p = some .readFailed ∧ o = .metricsFailed) →
    tableAlarms .readFailed p o = changes (p = some .readFailed) [decide (o = .readFailed)] := by
  decide

/-! ### Alarms of a sequence of outcomes -/

/-- The alarms of calls with these outcomes, where `p` was recorded before them. -/
def alarmsOf (r : Outcome) : Option Outcome → List Outcome → List Bool
  | _, [] => []
  | p, o :: os => tableAlarms r p o ++ alarmsOf r (some o) os

theorem alarmsOf_append (r : Outcome) (p : Option Outcome) (xs : List Outcome) (o : Outcome)
    (ys : List Outcome) :
    alarmsOf r p (xs ++ o :: ys) = alarmsOf r p (xs ++ [o]) ++ alarmsOf r (some o) ys := by
  induction xs generalizing p with
  | nil => simp only [List.nil_append, alarmsOf, List.append_nil]
  | cons x xs ih => simp only [List.cons_append, alarmsOf, ih, List.append_assoc]

/-- Alarms alternate, starting with a Warning, and are even in number where Degraded=False is
recorded. -/
structure Paired (r : Outcome) (p : Option Outcome) (os : List Outcome) : Prop where
  alternate : ∀ (i : ℕ) b, (alarmsOf r p os)[i]? = some b → (b = true ↔ Even i)
  balanced : ∀ pre o post, os = pre ++ o :: post → o.degraded = .conditionFalse →
    Even (alarmsOf r p (pre ++ [o])).length

section Outcomes

variable {r : Outcome} {p : Option Outcome} {os : List Outcome}

theorem alternate_of_changes (hp : p ≠ some r)
    (h : alarmsOf r p os = changes (p = some r) (os.map fun o => decide (o = r))) (i : ℕ) (b : Bool)
    (hb : (alarmsOf r p os)[i]? = some b) : b = true ↔ Even i := by
  rw [h, decide_eq_false hp] at hb
  have hx := changes_alternate hb
  by_cases he : Even i <;> simp [hx, he]

theorem even_of_changes (hp : p ≠ some r) {pre : List Outcome} {o : Outcome} (ho : o ≠ r)
    (h : alarmsOf r p (pre ++ [o]) =
      changes (p = some r) ((pre ++ [o]).map fun o => decide (o = r))) :
    Even (alarmsOf r p (pre ++ [o])).length := by
  rw [h, decide_eq_false hp, even_length_changes, List.map_append, List.map_singleton,
    List.getLastD_concat]
  exact decide_eq_false ho

theorem alarms_metrics (p : Option Outcome) (os : List Outcome) : alarmsOf .metricsFailed p os =
    changes (p = some .metricsFailed) (os.map fun o => decide (o = .metricsFailed)) := by
  induction os generalizing p with
  | nil => rfl
  | cons o os ih =>
    rw [alarmsOf, table_metrics, ih]
    simp only [Option.some_inj]
    exact (changes_append _ [decide (o = .metricsFailed)] _).symm

/-- Metrics failures and recoveries pair up. -/
theorem paired_metrics (hp : p ≠ some .metricsFailed) : Paired .metricsFailed p os where
  alternate := alternate_of_changes hp (alarms_metrics p os)
  balanced pre o post _ ho := by
    refine even_of_changes hp ?_ (alarms_metrics p _)
    rintro rfl
    cases ho

/-- While no metrics failure directly follows a failed read, the alarms are changes. -/
theorem alarms_read (h : ¬ [Outcome.readFailed, .metricsFailed] <:+: p.toList ++ os) :
    alarmsOf .readFailed p os =
      changes (p = some .readFailed) (os.map fun o => decide (o = .readFailed)) := by
  induction os generalizing p with
  | nil => rfl
  | cons o os ih =>
    have hhead : ¬ (p = some .readFailed ∧ o = .metricsFailed) := by
      rintro ⟨rfl, rfl⟩
      exact h ⟨[], os, rfl⟩
    have htail : ¬ [Outcome.readFailed, .metricsFailed] <:+: (some o).toList ++ os :=
      fun hin => h (hin.trans (List.suffix_append _ _).isInfix)
    rw [alarmsOf, table_read p o hhead, ih htail]
    simp only [Option.some_inj]
    exact (changes_append _ [decide (o = .readFailed)] _).symm

theorem not_infix_toList (hp : p ≠ some .readFailed)
    (h : ¬ [Outcome.readFailed, .metricsFailed] <:+: os) :
    ¬ [Outcome.readFailed, .metricsFailed] <:+: p.toList ++ os := by
  cases p with
  | none => exact h
  | some o =>
    intro hin
    rcases List.infix_cons_iff.mp hin with hpre | hin
    · rw [List.cons_prefix_cons] at hpre
      exact hp (congrArg some hpre.1.symm)
    · exact h hin

/-! ### Masked failures -/

/-- The call got its metrics and had no Update rejected. -/
def Outcome.Settles (o : Outcome) : Prop := o ≠ .metricsFailed ∧ o ≠ .updateFailed

instance : DecidablePred Outcome.Settles := fun _ => inferInstanceAs (Decidable (_ ∧ _))

/-- What settles is a failed read or recorded with Degraded=False. -/
theorem settles_iff : ∀ o : Outcome,
    o.Settles ↔ o = .readFailed ∨ o.degraded = .conditionFalse := by
  decide

/-- A metrics failure directly follows a failed read, and a later call gets its metrics and has no
Update rejected. -/
def Masked (os : List Outcome) : Prop :=
  ∃ pre post, os = pre ++ .readFailed :: .metricsFailed :: post ∧ ∃ o ∈ post, o.Settles

theorem table_unsettled : ∀ (p : Option Outcome) (o : Outcome), p ≠ some .readFailed →
    ¬ o.Settles → o ≠ .readFailed ∧ tableAlarms .readFailed p o = [] := by
  decide

theorem table_of_ne : ∀ (p : Option Outcome) (o : Outcome), p ≠ some .readFailed →
    tableAlarms .readFailed p o = if o = .readFailed then [true] else [] := by
  decide

/-- Between a masked failure and the next call that settles nothing is announced of the read. -/
theorem alarms_unsettled (hp : p ≠ some .readFailed) {mid : List Outcome}
    (hmid : ∀ o ∈ mid, ¬ o.Settles) (ys : List Outcome) :
    alarmsOf .readFailed p (mid ++ ys) = alarmsOf .readFailed none ys := by
  induction mid generalizing p with
  | nil =>
    cases ys with
    | nil => rfl
    | cons y ys =>
      rw [List.nil_append, alarmsOf, alarmsOf, table_of_ne p y hp, table_of_ne none y (by simp)]
  | cons o mid ih =>
    obtain ⟨hne, htable⟩ := table_unsettled p o hp (hmid o (by simp))
    rw [List.cons_append, alarmsOf, htable, List.nil_append,
      ih (fun h => hne (Option.some_inj.mp h)) fun x hx => hmid x (by simp [hx])]

/-- The alarms up to a failed read end with its Warning. -/
theorem alarms_concat_read (hp : p ≠ some .readFailed) (pre : List Outcome) :
    ∃ as, alarmsOf .readFailed p (pre ++ [.readFailed]) = as ++ [true] := by
  induction pre using List.reverseRecOn with
  | nil => exact ⟨[], by simp [alarmsOf, table_of_ne p _ hp]⟩
  | append_singleton pre x ih =>
    rw [List.append_assoc, List.singleton_append, alarmsOf_append]
    by_cases hx : x = .readFailed
    · subst hx
      obtain ⟨as, has⟩ := ih
      refine ⟨as, ?_⟩
      rw [has]
      exact List.append_nil _
    · refine ⟨alarmsOf .readFailed p (pre ++ [x]), ?_⟩
      simp [alarmsOf, table_of_ne (some x) _ (by simpa using hx)]

variable (p) in
/-- The alarms of a run with a masked failure. -/
theorem alarms_masked (pre : List Outcome) {mid : List Outcome}
    (hmid : ∀ o ∈ mid, ¬ o.Settles) (ys : List Outcome) :
    alarmsOf .readFailed p (pre ++ .readFailed :: .metricsFailed :: (mid ++ ys)) =
      alarmsOf .readFailed p (pre ++ [.readFailed]) ++ alarmsOf .readFailed none ys := by
  rw [alarmsOf_append, alarmsOf, alarms_unsettled (by simp) hmid]
  rfl

/-- The calls up to one that settles have no metrics failure directly after a failed read. -/
theorem not_infix_of_settles {pre post : List Outcome} {o : Outcome}
    (h : ¬ Masked (pre ++ o :: post)) (ho : o.Settles) :
    ¬ [Outcome.readFailed, .metricsFailed] <:+: pre ++ [o] := by
  rintro ⟨a, b, hab⟩
  rcases List.eq_nil_or_concat' b with rfl | ⟨b, x, rfl⟩
  · have hlast : Outcome.metricsFailed = o := by simpa using congrArg List.getLast? hab
    subst hlast
    exact absurd ho (by decide)
  · rw [← List.append_assoc] at hab
    obtain ⟨hpre, hx⟩ := List.append_inj' hab rfl
    refine h ⟨a, b ++ o :: post, ?_, o, by simp, ho⟩
    rw [← hpre]
    simp

/-- **Failed reads and their recoveries pair up exactly when none is masked.** -/
theorem paired_read_iff (hp : p ≠ some .readFailed) : Paired .readFailed p os ↔ ¬ Masked os := by
  constructor
  · rintro h ⟨pre, post, rfl, o, ho, hset⟩
    -- the first call after the masked failure that settles
    have hsome : (post.find? fun o => o.Settles).isSome :=
      List.find?_isSome.mpr ⟨o, ho, decide_eq_true hset⟩
    obtain ⟨x, hx⟩ := Option.isSome_iff_exists.mp hsome
    obtain ⟨hset', mid, rest, rfl, hmid⟩ := List.find?_eq_some_iff_append.mp hx
    have hmid' : ∀ y ∈ mid, ¬ y.Settles := fun y hy => by simpa using hmid y hy
    obtain ⟨as, has⟩ := alarms_concat_read hp pre
    have hwarn : (alarmsOf .readFailed p (pre ++ .readFailed :: .metricsFailed ::
        (mid ++ x :: rest)))[as.length]? = some true := by
      rw [alarms_masked p pre hmid', has]
      simp
    have heven : Even as.length := (h.alternate _ _ hwarn).mp rfl
    rcases (settles_iff x).mp (of_decide_eq_true hset') with rfl | hdeg
    · have hagain : (alarmsOf .readFailed p (pre ++ .readFailed :: .metricsFailed ::
          (mid ++ .readFailed :: rest)))[as.length + 1]? = some true := by
        rw [alarms_masked p pre hmid', has, alarmsOf, table_of_ne none _ (by simp)]
        simp
      exact Nat.even_add_one.mp ((h.alternate _ _ hagain).mp rfl) heven
    · have hbal := h.balanced (pre ++ .readFailed :: .metricsFailed :: mid) x rest (by simp) hdeg
      have hne : x ≠ .readFailed := by
        rintro rfl
        cases hdeg
      rw [List.append_assoc, List.cons_append, List.cons_append, alarms_masked p pre hmid', has,
        alarmsOf, table_of_ne none x (by simp), if_neg hne] at hbal
      simp only [alarmsOf, List.append_nil, List.length_append, List.length_singleton] at hbal
      exact Nat.even_add_one.mp hbal heven
  · intro h
    refine ⟨?_, fun pre o post hos ho => ?_⟩
    · by_cases hin : [Outcome.readFailed, .metricsFailed] <:+: os
      · obtain ⟨pre, post, rfl⟩ := hin
        simp only [List.append_assoc, List.cons_append, List.nil_append] at h ⊢
        have hpost : ∀ o ∈ post, ¬ o.Settles := fun o ho hset => h ⟨pre, post, rfl, o, ho, hset⟩
        have hfree := not_infix_toList hp (not_infix_of_settles h (by decide))
        have hall := alarms_masked p pre hpost []
        rw [List.append_nil] at hall
        rw [hall, alarmsOf, List.append_nil]
        exact alternate_of_changes hp (alarms_read hfree)
      · exact alternate_of_changes hp (alarms_read (not_infix_toList hp hin))
    · subst hos
      have hfree := not_infix_toList hp (not_infix_of_settles h ((settles_iff o).mpr (.inr ho)))
      refine even_of_changes hp ?_ (alarms_read hfree)
      rintro rfl
      cases ho

end Outcomes

/-! ### Runs -/

variable {rt : Runtime} {w : World} {t : Tick} {ts : List Tick}

/-- The outcomes of the calls that could read their object. -/
def outcomes (rt : Runtime) (cs : List Call) : List Outcome := cs.filterMap (Call.outcome? rt)

/-- The Warnings of `r` and the Recovered events naming it alternate, starting with a Warning, and
every Warning has its Recovered event by the end of a call that records Degraded=False. -/
structure PairsUp (r : Outcome) (cs : List Call) : Prop where
  alternate : ∀ (i : ℕ) b, (cs.flatMap (Call.alarms r))[i]? = some b → (b = true ↔ Even i)
  balanced : ∀ pre c post, cs = pre ++ c :: post → c.RecordsDegraded .conditionFalse →
    Even ((pre ++ [c]).flatMap (Call.alarms r)).length

theorem alarms_call {p : Option Outcome} (hp : Recorded w.wl.status.lastTransitionReason p)
    {o : Outcome} (ho : (call rt w t).outcome? rt = some o) (r : Outcome) :
    (call rt w t).alarms r = tableAlarms r p o := filterMap_alarm? (call_shows hp ho) r

theorem outcomes_cons {c : Call} (cs : List Call) :
    outcomes rt (c :: cs) = (c.outcome? rt).toList ++ outcomes rt cs := by
  rw [outcomes, List.filterMap_cons]
  cases c.outcome? rt <;> rfl

/-- The alarms of a run are those of its outcomes. -/
theorem alarms_calls (r : Outcome) : ∀ {ts : List Tick} {w : World} {p : Option Outcome},
    Recorded w.wl.status.lastTransitionReason p → AllPersist (calls rt w ts) →
    (calls rt w ts).flatMap (Call.alarms r) = alarmsOf r p (outcomes rt (calls rt w ts))
  | [], _, _, _, _ => rfl
  | t :: ts, w, p, hrec, hp => by
    have hcalls : calls rt w (t :: ts) = call rt w t :: calls rt (next rt w t) ts := rfl
    have hp' : AllPersist (calls rt (next rt w t) ts) := fun c hc => hp c (by simp [hcalls, hc])
    rw [hcalls, List.flatMap_cons, outcomes_cons]
    cases ho : (call rt w t).outcome? rt with
    | none =>
      obtain ⟨hnone, hev⟩ := outcome?_eq_none ho
      have hstatus : (next rt w t).wl.status = w.wl.status := by
        rcases after_status rt w t with ⟨-, u, hu, -⟩ | ⟨-, h⟩
        · rw [hnone] at hu
          cases hu
        · exact h
      rw [Call.alarms, hev]
      exact alarms_calls r (by rwa [hstatus]) hp'
    | some o =>
      have hpers := persisted_of_outcome ho (hp _ (by simp [hcalls]))
      obtain ⟨o', ho', hrec'⟩ := recorded_of_persisted hpers
      obtain rfl : o = o' := Option.some_inj.mp (ho.symm.trans ho')
      rw [alarms_call hrec ho, alarms_calls r hrec' hp']
      rfl

/-- The same for the calls up to one of the run. -/
theorem alarms_upto {p : Option Outcome} (hrec : Recorded w.wl.status.lastTransitionReason p)
    (hp : AllPersist (calls rt w ts)) (r : Outcome) {pre : List Call} {c : Call} {post : List Call}
    (hcs : calls rt w ts = pre ++ c :: post) :
    (pre ++ [c]).flatMap (Call.alarms r) = alarmsOf r p (outcomes rt (pre ++ [c])) := by
  obtain ⟨us, t, vs, rfl, hpre, hc⟩ := Run.records_eq_append_cons hcs
  have hcalls : pre ++ [c] = calls rt w (us ++ [t]) := by
    rw [calls, Run.records_concat, hpre, hc]
  rw [hcalls]
  refine alarms_calls r hrec fun d hd => hp d ?_
  rw [hcs, List.append_cons, hcalls]
  exact List.mem_append_left _ hd

/-- A run pairs up as its outcomes do. -/
theorem pairsUp_iff {p : Option Outcome} (hrec : Recorded w.wl.status.lastTransitionReason p)
    (hp : AllPersist (calls rt w ts)) {r : Outcome} :
    PairsUp r (calls rt w ts) ↔ Paired r p (outcomes rt (calls rt w ts)) := by
  constructor
  · refine fun h => ⟨?_, fun pre o post hos ho => ?_⟩
    · rw [← alarms_calls r hrec hp]
      exact h.alternate
    · obtain ⟨cpre, cs, hcs, rfl, hrest⟩ := List.filterMap_eq_append_iff.mp hos
      obtain ⟨skip, c, cpost, rfl, hskip, hc, -⟩ := List.filterMap_eq_cons_iff.mp hrest
      have hcs' : calls rt w ts = (cpre ++ skip) ++ c :: cpost := by
        rw [hcs, List.append_assoc]
      obtain ⟨v, t, -, rfl⟩ := mem_calls rt (show c ∈ calls rt w ts by simp [hcs])
      obtain ⟨u, hu, -, -, hdeg⟩ := update_of_outcome hc
      have hbal := h.balanced _ _ _ hcs' (recordsDegraded_iff.mpr ⟨u, hu, hdeg.trans ho⟩)
      have hout : outcomes rt (cpre ++ skip ++ [call rt v t]) =
          cpre.filterMap (Call.outcome? rt) ++ [o] := by
        rw [outcomes, List.filterMap_append, List.filterMap_append,
          List.filterMap_eq_nil_iff.mpr hskip, List.append_nil, List.filterMap_cons, hc]
        rfl
      rwa [alarms_upto hrec hp r hcs', hout] at hbal
  · refine fun h => ⟨?_, fun pre c post hcs hd => ?_⟩
    · rw [alarms_calls r hrec hp]
      exact h.alternate
    · obtain ⟨v, t, -, rfl⟩ := mem_calls rt (show c ∈ calls rt w ts by simp [hcs])
      obtain ⟨u, hu, hdeg⟩ := recordsDegraded_iff.mp hd
      obtain ⟨o, ho, -, -, hdeg'⟩ := outcome_of_update hu
      have hout : ∀ cs : List Call, outcomes rt (pre ++ call rt v t :: cs) =
          outcomes rt pre ++ o :: outcomes rt cs := by
        intro cs
        rw [outcomes, List.filterMap_append, List.filterMap_cons, ho]
        rfl
      have hos : outcomes rt (calls rt w ts) = outcomes rt pre ++ o :: outcomes rt post := by
        rw [hcs, hout]
      rw [alarms_upto hrec hp r hcs, hout]
      exact h.balanced _ _ _ hos (hdeg'.symm.trans hdeg)

/-- **Failures and recoveries pair up** in runs whose status writes all persist: those of the
metrics in every one, those of the Deployment read in those without a masked failure. -/
theorem failures_pair_up (hm : w.wl.status.lastTransitionReason ≠ reasonMetricsUnavailable)
    (hd : w.wl.status.lastTransitionReason ≠ reasonTargetDeploymentNotFound)
    (hp : AllPersist (calls rt w ts)) : PairsUp .metricsFailed (calls rt w ts) ∧
      (PairsUp .readFailed (calls rt w ts) ↔ ¬ Masked (outcomes rt (calls rt w ts))) := by
  obtain ⟨p, hrec⟩ := exists_recorded w.wl.status.lastTransitionReason
  have hpm : p ≠ some .metricsFailed := fun h => hm ((hrec.eq_iff .metricsFailed).mpr h)
  have hpd : p ≠ some .readFailed := fun h => hd ((hrec.eq_iff .readFailed).mpr h)
  rw [pairsUp_iff hrec hp, pairsUp_iff hrec hp]
  exact ⟨paired_metrics hpm, paired_read_iff hpd⟩

theorem failures_pair_up_sample :
    PairsUp .metricsFailed (calls (.exact 0) (.fresh .sample (some 2)) [.unreachable, .lost]) ∧
      (PairsUp .readFailed (calls (.exact 0) (.fresh .sample (some 2)) [.unreachable, .lost]) ↔
        ¬ Masked (outcomes (.exact 0)
          (calls (.exact 0) (.fresh .sample (some 2)) [.unreachable, .lost]))) :=
  failures_pair_up (w := .fresh .sample (some 2)) (by decide) (by decide)
    (allPersist_of_quiet (by decide))

/-- The target is lost, the metrics fail once, and the target still lost is warned of again. -/
theorem masked_failure_warns_twice :
    ¬ ∀ (rt : Runtime) (w : World) (ts : List Tick), w.wl.status.lastTransitionReason = "" →
      AllPersist (calls rt w ts) → PairsUp .metricsFailed (calls rt w ts) ∧
        PairsUp .readFailed (calls rt w ts) := by
  intro h
  have hrec : Recorded (World.fresh .sample (some 2)).wl.status.lastTransitionReason none :=
    recorded_empty
  have hp : AllPersist (calls (.exact 0) (.fresh .sample (some 2)) [.lost, .unreachable, .lost]) :=
    allPersist_of_quiet (by decide)
  have hos : outcomes (.exact 0) (calls (.exact 0) (.fresh .sample (some 2))
      [.lost, .unreachable, .lost]) = [.readFailed, .metricsFailed, .readFailed] := by
    simp only [calls, Run.records_cons, Run.records_nil, outcomes_cons, outcome_lost,
      outcome_unreachable]
    rfl
  have hpair := (h (.exact 0) (.fresh .sample (some 2)) _ rfl hp).2
  rw [pairsUp_iff hrec hp, hos, paired_read_iff (by simp)] at hpair
  exact hpair ⟨[], [.readFailed], rfl, .readFailed, by simp, by decide⟩

end InfraDemo.Operator
