import InfraDemo.Operator.Conditions
import InfraDemo.Operator.Events

/-!
# Status — what a call leaves in the stored status

Spec edits leave the status, so it changes only by a call whose status write persists, and then it is
the stored one with that call's update (`after_status`).
-/

namespace InfraDemo.Operator

open InfraDemo.Go

/-! ### Edits -/

theorem editSpec_status (wl : WorkloadLifecycle) (spec : WorkloadLifecycleSpec) :
    (wl.editSpec spec).status = wl.status := by
  unfold WorkloadLifecycle.editSpec
  split_ifs <;> rfl

theorem editSpecs_status (wl : WorkloadLifecycle) (specs : List WorkloadLifecycleSpec) :
    (wl.editSpecs specs).status = wl.status := by
  induction specs generalizing wl with
  | nil => rfl
  | cons spec specs ih => exact (ih (wl.editSpec spec)).trans (editSpec_status wl spec)

theorem disturb_status (w : World) (t : Tick) : (w.disturb t).wl.status = w.wl.status :=
  editSpecs_status w.wl t.edits

/-! ### Calls -/

/-- The status update of the call, if it makes one. -/
def Call.update? (rt : Runtime) (c : Call) : Option StatusUpdate :=
  (exitOf rt c.start c.tick).update? c.start

/-- The outcome of the call, if it could read its object. -/
def Call.outcome? (rt : Runtime) (c : Call) : Option Outcome :=
  (exitOf rt c.start c.tick).outcome? c.start

/-- The status write of the call persisted. -/
def Call.Persisted (c : Call) : Prop := ∃ wl, (wl, none) ∈ c.statusWrites

instance : DecidablePred Call.Persisted := fun c =>
  decidable_of_iff (∃ s ∈ c.statusWrites, s.2 = none)
    ⟨fun ⟨s, hs, h⟩ => ⟨s.1, h ▸ hs⟩, fun ⟨wl, h⟩ => ⟨(wl, none), h, rfl⟩⟩

/-- The call submits a status whose Degraded condition has the status `s`. -/
def Call.RecordsDegraded (c : Call) (s : ConditionStatus) : Prop :=
  ∃ wl err, (wl, err) ∈ c.statusWrites ∧
    (findCondition degradedType wl.status.conditions).map Condition.status = some s

/-- The status the call submits. -/
def Call.status? (c : Call) : Option WorkloadLifecycleStatus :=
  c.statusWrites.head?.map fun s => s.1.status

/-- The object can be read, and neither a spec edit nor an error meets the status write. -/
def Tick.Quiet (t : Tick) : Prop := t.getErr = none ∧ t.midEdits = [] ∧ t.statusErr = none

instance : DecidablePred Tick.Quiet := fun _ => inferInstanceAs (Decidable (_ ∧ _ ∧ _))

/-- Every status write of the calls persists. -/
def AllPersist (cs : List Call) : Prop := ∀ c ∈ cs, ∀ s ∈ c.statusWrites, s.2 = none

variable {rt : Runtime} {w : World} {t : Tick}

theorem update?_call : (call rt w t).update? rt = (callExit rt w t).update? (w.disturb t) := rfl

theorem outcome?_call : (call rt w t).outcome? rt = (callExit rt w t).outcome? (w.disturb t) := rfl

/-- A status update records the outcome of its call. -/
theorem outcome_of_update {u : StatusUpdate} (h : (call rt w t).update? rt = some u) :
    ∃ o, (call rt w t).outcome? rt = some o ∧ u.reason = o.reason ∧ u.available = o.available ∧
      u.degraded = o.degraded := by
  rcases update?_outcome? (w.disturb t) (callExit rt w t) with ⟨hu, -⟩ | ⟨u', o, hu, ho, hr⟩
  · cases h.symm.trans hu
  · obtain rfl : u = u' := Option.some_inj.mp (h.symm.trans hu)
    exact ⟨o, ho, hr⟩

theorem update_of_outcome {o : Outcome} (h : (call rt w t).outcome? rt = some o) :
    ∃ u, (call rt w t).update? rt = some u ∧ u.reason = o.reason ∧ u.available = o.available ∧
      u.degraded = o.degraded := by
  rcases update?_outcome? (w.disturb t) (callExit rt w t) with ⟨-, ho⟩ | ⟨u, o', hu, ho, hr⟩
  · cases h.symm.trans ho
  · obtain rfl : o = o' := Option.some_inj.mp (h.symm.trans ho)
    exact ⟨u, hu, hr⟩

/-- The status writes of a call are its update, submitted once. -/
theorem statusWrites_call {u : StatusUpdate} (h : (call rt w t).update? rt = some u) :
    (call rt w t).statusWrites = [(u.applyTo rt t.clock (w.disturb t).wl,
      statusAnswer t ((w.disturb t).wl.editSpecs t.midEdits) (w.disturb t).wl.resourceVersion)] := by
  rw [update?_call] at h
  rw [call_statusWrites, Exit.statusWrites, h]

theorem status?_call {u : StatusUpdate} (h : (call rt w t).update? rt = some u) :
    (call rt w t).status? = some (u.applyTo rt t.clock (w.disturb t).wl).status := by
  rw [Call.status?, statusWrites_call h]
  rfl

theorem statusWrites_call_none (h : (call rt w t).update? rt = none) :
    (call rt w t).statusWrites = [] := by
  rw [update?_call] at h
  rw [call_statusWrites, Exit.statusWrites, h]

variable (rt w t) in
/-- **The status after a call**: that of its persisted update, else the one before. -/
theorem after_status : ((call rt w t).Persisted ∧ ∃ u, (call rt w t).update? rt = some u ∧
      (next rt w t).wl.status = (u.applyTo rt t.clock (w.disturb t).wl).status) ∨
    (¬ (call rt w t).Persisted ∧ (next rt w t).wl.status = w.wl.status) := by
  have hedits := editSpecs_status (w.disturb t).wl t.midEdits
  rw [next, call_after]
  simp only [Exit.after, Exit.stored, ← update?_call]
  cases hu : (call rt w t).update? rt with
  | none =>
    refine .inr ⟨?_, disturb_status w t⟩
    rintro ⟨wl, hwl⟩
    rw [statusWrites_call_none hu] at hwl
    cases hwl
  | some u =>
    have hw := statusWrites_call hu
    simp only [storeStatus]
    cases ha : statusAnswer t ((w.disturb t).wl.editSpecs t.midEdits)
        (w.disturb t).wl.resourceVersion with
    | none =>
      rw [ha] at hw
      have hanswer : statusAnswer t ((w.disturb t).wl.editSpecs t.midEdits)
          (u.applyTo rt t.clock (w.disturb t).wl).resourceVersion = none := ha
      rw [hanswer]
      exact .inl ⟨⟨_, by rw [hw]; exact List.mem_singleton.mpr rfl⟩, u, rfl, rfl⟩
    | some err =>
      rw [ha] at hw
      have hanswer : statusAnswer t ((w.disturb t).wl.editSpecs t.midEdits)
          (u.applyTo rt t.clock (w.disturb t).wl).resourceVersion = some err := ha
      rw [hanswer]
      refine .inr ⟨?_, hedits.trans (disturb_status w t)⟩
      rintro ⟨wl, hwl⟩
      rw [hw, List.mem_singleton] at hwl
      cases hwl

/-- A call without a status write has no outcome. -/
theorem outcome?_eq_none (h : (call rt w t).outcome? rt = none) :
    (call rt w t).update? rt = none ∧ (call rt w t).events = [] := by
  rw [call_events, update?_call]
  rw [outcome?_call] at h
  cases hx : callExit rt w t with
  | unreadable err => exact ⟨rfl, rfl⟩
  | _ => rw [hx] at h; cases h

/-- A call with an outcome persists if none of its status writes failed. -/
theorem persisted_of_outcome {o : Outcome} (h : (call rt w t).outcome? rt = some o)
    (hall : ∀ s ∈ (call rt w t).statusWrites, s.2 = none) : (call rt w t).Persisted := by
  obtain ⟨u, hu, -⟩ := update_of_outcome h
  rw [statusWrites_call hu] at hall
  refine ⟨u.applyTo rt t.clock (w.disturb t).wl, ?_⟩
  rw [statusWrites_call hu, ← hall _ (List.mem_singleton.mpr rfl)]
  exact List.mem_singleton.mpr rfl

/-- A call makes one status write at most. -/
theorem Call.Persisted.all (h : (call rt w t).Persisted) :
    ∀ s ∈ (call rt w t).statusWrites, s.2 = none := by
  obtain ⟨wl, hwl⟩ := h
  intro s hs
  cases hu : (call rt w t).update? rt with
  | none =>
    rw [statusWrites_call_none hu] at hs
    cases hs
  | some u =>
    rw [statusWrites_call hu, List.mem_singleton] at hs hwl
    rw [hs, ← hwl]

/-- A call under a quiet tick persists. -/
theorem persisted_of_quiet (ht : t.Quiet) : (call rt w t).Persisted := by
  obtain ⟨hget, hmid, hstatus⟩ := ht
  have hx := exits_callExit rt w t
  have hanswer : statusAnswer t ((w.disturb t).wl.editSpecs t.midEdits)
      (w.disturb t).wl.resourceVersion = none := by
    rw [statusAnswer, hstatus, hmid]
    exact if_pos rfl
  cases hu : (call rt w t).update? rt with
  | some u =>
    refine ⟨u.applyTo rt t.clock (w.disturb t).wl, ?_⟩
    rw [statusWrites_call hu, hanswer]
    exact List.mem_singleton.mpr rfl
  | none =>
    rw [update?_call] at hu
    generalize callExit rt w t = x at hx hu
    cases hx with
    | unreadable get => rw [hget] at get; cases get
    | _ => cases hu

theorem allPersist_of_quiet {ts : List Tick} (h : ∀ t ∈ ts, t.Quiet) :
    AllPersist (calls rt w ts) := by
  intro c hc
  obtain ⟨v, t, ht, rfl⟩ := mem_calls rt hc
  exact (persisted_of_quiet (h t ht)).all

/-- The Degraded condition of a submitted status. -/
theorem recordsDegraded_iff {s : ConditionStatus} : (call rt w t).RecordsDegraded s ↔
    ∃ u, (call rt w t).update? rt = some u ∧ u.degraded = s := by
  have hdegraded : ∀ u : StatusUpdate, (findCondition degradedType
      (u.applyTo rt t.clock (w.disturb t).wl).status.conditions).map Condition.status =
        some u.degraded :=
    fun u => rt.conditions.findCondition_set_self (t.clock .degraded)
      (rt.conditions.set (t.clock .available) (w.disturb t).wl.status.conditions
        (u.condition (w.disturb t).wl.generation availableType u.available))
      (u.condition (w.disturb t).wl.generation degradedType u.degraded)
  constructor
  · rintro ⟨wl, err, hwl, hs⟩
    cases hu : (call rt w t).update? rt with
    | none => rw [statusWrites_call_none hu] at hwl; cases hwl
    | some u =>
      rw [statusWrites_call hu, List.mem_singleton] at hwl
      cases hwl
      exact ⟨u, rfl, Option.some_inj.mp ((hdegraded u).symm.trans hs)⟩
  · rintro ⟨u, hu, rfl⟩
    exact ⟨_, _, by rw [statusWrites_call hu]; exact List.mem_singleton.mpr rfl, hdegraded u⟩

end InfraDemo.Operator
