import InfraDemo.Operator.Exits

/-!
# Writes — what a call changes in the cluster

Only one exit path changes a Deployment: an accepted Update of the target, from the count read to
the desired one (`Exits.scaled_spec`).  The stored WorkloadLifecycle keeps its key, and its spec
while nobody edits it.
-/

namespace InfraDemo.Operator

open InfraDemo.Go

variable {rt : Runtime} {w : World} {t : Tick}

/-- The target Deployment. -/
def World.target (w : World) : Option Deployment := w.deployments.get w.wl.deployKey

/-- The key another client writes. -/
def DeploymentWrite.key : DeploymentWrite → ObjectKey
  | .put deploy => deploy.key
  | .erase key => key

/-- Nobody but the controller writes the spec or the Deployment at `key` around or during the
call. -/
structure Tick.Undisturbed (t : Tick) (key : ObjectKey) : Prop where
  edits : t.edits = []
  midEdits : t.midEdits = []
  writes : ∀ write ∈ t.writes, write.key ≠ key

theorem undisturbed_serving (body : String) (key : ObjectKey) :
    (Tick.serving body).Undisturbed key :=
  ⟨rfl, rfl, fun _ hw => absurd hw List.not_mem_nil⟩

theorem apply_get_of_ne (s : DeploymentStore) {write : DeploymentWrite} {key : ObjectKey}
    (h : write.key ≠ key) : (s.apply write).get key = s.get key := by
  cases write with
  | put deploy => exact DeploymentStore.set_get_of_ne s h.symm
  | erase k => exact Function.update_of_ne h.symm ..

theorem foldl_apply_get {writes : List DeploymentWrite} {key : ObjectKey}
    (h : ∀ write ∈ writes, write.key ≠ key) (s : DeploymentStore) :
    (writes.foldl DeploymentStore.apply s).get key = s.get key := by
  induction writes generalizing s with
  | nil => rfl
  | cons write writes ih =>
    rw [List.foldl_cons, ih fun w hw => h w (by simp [hw]), apply_get_of_ne s (h write (by simp))]

theorem disturb_wl {key : ObjectKey} (h : t.Undisturbed key) : (w.disturb t).wl = w.wl := by
  simp only [World.disturb, h.edits]
  rfl

theorem disturb_target (h : t.Undisturbed w.wl.deployKey) : (w.disturb t).target = w.target := by
  rw [World.target, disturb_wl h]
  exact foldl_apply_get h.writes w.deployments

/-! ### The answers of the API server -/

theorem deployAnswer_ok {s : DeploymentStore} {key : ObjectKey} {d : Deployment}
    (h : deployAnswer t s key = .ok d) : t.deployErr = none ∧ s.get key = some d := by
  unfold deployAnswer at h
  cases he : t.deployErr with
  | some err => rw [he] at h; cases h
  | none =>
    rw [he] at h
    cases hs : s.get key with
    | none => rw [hs] at h; cases h
    | some d' => rw [hs] at h; cases h; exact ⟨rfl, rfl⟩

theorem updateAnswer_ok {s s' : DeploymentStore} {d : Deployment}
    (h : updateAnswer t s d = .ok s') : 0 ≤ d.count.toInt ∧ ∃ stored, s.get d.key = some stored ∧
      d.resourceVersion = stored.resourceVersion ∧
      s' = s.set { d with resourceVersion := stored.resourceVersion + 1 } := by
  unfold updateAnswer at h
  cases he : t.updateErr with
  | some err => rw [he] at h; cases h
  | none =>
    simp only [he, DeploymentStore.update] at h
    cases hs : s.get d.key with
    | none => rw [hs] at h; cases h
    | some stored =>
      simp only [hs] at h
      by_cases hr : d.resourceVersion ≠ stored.resourceVersion ∨ d.count < 0
      · rw [if_pos hr] at h; cases h
      · rw [if_neg hr] at h
        rw [not_or, not_not, Int32.not_lt, Int32.le_iff_toInt_le, Int32.toInt_zero] at hr
        cases h
        exact ⟨hr.2, stored, rfl, hr.1, rfl⟩

/-- **The accepted change**: the target, read just before, gets the desired count, which is not
negative, and nothing else changes. -/
theorem Exits.scaled_spec {metrics : Metrics} {d : Deployment} {s : DeploymentStore}
    (hx : Exits rt w t (.scaled metrics d s)) :
    w.target = some d ∧ 0 ≤ (desiredOf w metrics d).toInt ∧
      s = w.deployments.set
        { submitted w metrics d with resourceVersion := d.resourceVersion + 1 } := by
  cases hx with
  | scaled get fetch read change update =>
    have hd := (deployAnswer_ok read).2
    obtain ⟨h0, stored, hs, -, rfl⟩ := updateAnswer_ok update
    have hk : d.key = w.wl.deployKey := w.deployments.keyed _ _ hd
    have hst : stored = d := by
      rw [show (submitted w metrics d).key = w.wl.deployKey from hk, hd] at hs
      exact (Option.some_inj.mp hs).symm
    subst hst
    exact ⟨hd, h0, rfl⟩

/-- The target after an accepted change. -/
theorem Exits.scaled_get {metrics : Metrics} {d : Deployment} {s : DeploymentStore}
    (hx : Exits rt w t (.scaled metrics d s)) (k : ObjectKey) :
    s.get k = if k = w.wl.deployKey then
      some { submitted w metrics d with resourceVersion := d.resourceVersion + 1 }
    else w.deployments.get k := by
  obtain ⟨hd, -, rfl⟩ := hx.scaled_spec
  have hk : d.key = w.wl.deployKey := w.deployments.keyed _ _ hd
  split_ifs with h
  · subst h
    rw [← hk]
    exact DeploymentStore.set_get_self ..
  · exact DeploymentStore.set_get_of_ne _ (by rw [← hk] at h; exact h)

@[simp] theorem submitted_count (metrics : Metrics) (d : Deployment) (rv : ℕ) :
    ({ submitted w metrics d with resourceVersion := rv } : Deployment).count =
      desiredOf w metrics d := rfl

/-- No answer of the API server is an error of the outside. -/
structure Tick.Smooth (t : Tick) : Prop where
  get : t.getErr = none
  deploy : t.deployErr = none
  update : t.updateErr = none

theorem smooth_serving (body : String) : (Tick.serving body).Smooth := ⟨rfl, rfl, rfl⟩

theorem deployAnswer_target (ht : t.deployErr = none) {d : Deployment} (hd : w.target = some d) :
    deployAnswer t w.deployments w.wl.deployKey = .ok d := by
  rw [World.target] at hd
  simp only [deployAnswer, ht, hd]

/-- Without errors a call that has its metrics and its target holds or changes the count as it
wants, if that count can be stored. -/
theorem smooth_exits (ht : t.Smooth) {m : Metrics} {d : Deployment}
    (hm : readAnswer rt.toPlatform t.metrics = .ok m) (hd : w.target = some d)
    (h0 : 0 ≤ desiredOf w m d) :
    (desiredOf w m d = d.count ∧ Exits rt w t (.holding m d)) ∨
      ∃ s, desiredOf w m d ≠ d.count ∧ Exits rt w t (.scaled m d s) := by
  have hread := deployAnswer_target ht.deploy hd
  by_cases hsame : desiredOf w m d = d.count
  · exact .inl ⟨hsame, .holding ht.get hm hread hsame⟩
  · have hk : d.key = w.wl.deployKey := w.deployments.keyed _ _ hd
    have hget : w.deployments.get (submitted w m d).key = some d := hk ▸ hd
    have hcount : ¬ (desiredOf w m d < 0) := Int32.not_lt.mpr h0
    refine .inr ⟨w.deployments.set { submitted w m d with
      resourceVersion := d.resourceVersion + 1 }, hsame, .scaled ht.get hm hread hsame ?_⟩
    simp only [updateAnswer, ht.update, DeploymentStore.update, hget]
    rw [if_neg]
    rintro (hv | hv)
    · exact hv rfl
    · exact hcount hv

/-- Only an accepted change touches a Deployment. -/
theorem after_deployments (x : Exit) :
    (x.after rt w t).deployments = w.deployments ∨
      ∃ metrics d s, x = .scaled metrics d s ∧ (x.after rt w t).deployments = s := by
  cases x with
  | scaled metrics d s => exact .inr ⟨metrics, d, s, rfl, rfl⟩
  | _ => exact .inl rfl

/-! ### Frame of the stored object -/

theorem storeStatus_spec (stored wl : WorkloadLifecycle) :
    (storeStatus t stored wl).spec = stored.spec ∧ (storeStatus t stored wl).key = stored.key ∧
      (storeStatus t stored wl).generation = stored.generation := by
  unfold storeStatus
  split <;> exact ⟨rfl, rfl, rfl⟩

variable (rt w) in
/-- An undisturbed call leaves the spec and the key of the object. -/
theorem next_spec {key : ObjectKey} (h : t.Undisturbed key) :
    (next rt w t).wl.spec = w.wl.spec ∧ (next rt w t).wl.key = w.wl.key := by
  rw [next, call_after]
  simp only [Exit.after, Exit.stored]
  cases (callExit rt w t).update? (w.disturb t) with
  | none => simp only [disturb_wl h, and_self]
  | some u =>
    simp only [h.midEdits, disturb_wl h]
    exact ⟨(storeStatus_spec _ _).1, (storeStatus_spec _ _).2.1⟩

variable (rt w) in
theorem next_deployKey {key : ObjectKey} (h : t.Undisturbed key) :
    (next rt w t).wl.deployKey = w.wl.deployKey := by
  simp only [WorkloadLifecycle.deployKey, (next_spec rt w h).1, (next_spec rt w h).2]

/-! ### Failed and successful calls -/

/-- The metrics fetch of the call failed. -/
def Call.FetchFailed (rt : Runtime) (c : Call) : Prop :=
  ∃ err, readAnswer rt.toPlatform c.tick.metrics = .error err

/-- A Deployment read of the call failed. -/
def Call.ReadFailed (c : Call) : Prop :=
  ∃ key err, (⟨.getDeployment key, .error err⟩ : Exchange) ∈ c.trace

/-- A Deployment Update of the call failed. -/
def Call.UpdateFailed (c : Call) : Prop := ∃ d err, (d, some err) ∈ c.deployWrites

/-- A failed Deployment read ends the call at once. -/
theorem readFailed_path {x : Exit} {key : ObjectKey} {err : ApiError}
    (h : (⟨.getDeployment key, .error err⟩ : Exchange) ∈ x.trace rt w t) :
    ∃ metrics e, x = .targetDeploymentNotFound metrics e := by
  cases x with
  | targetDeploymentNotFound metrics e => exact ⟨metrics, e, rfl⟩
  | _ =>
    simp [Exit.trace, Exit.update?, deployTrace, adjustTrace, statusTrace, eventTrace] at h

/-- A call with an accepted change had no failure. -/
theorem not_failed_of_scaled {metrics : Metrics} {d : Deployment} {s : DeploymentStore}
    (hx : callExit rt w t = .scaled metrics d s) :
    ¬ (call rt w t).FetchFailed rt ∧ ¬ (call rt w t).ReadFailed ∧ ¬ (call rt w t).UpdateFailed := by
  have he := hx ▸ exits_callExit rt w t
  refine ⟨?_, ?_, ?_⟩
  · rintro ⟨err, hf⟩
    cases he with
    | scaled get fetch read change update =>
      rw [call_tick, fetch] at hf
      cases hf
  · rintro ⟨key, err, hr⟩
    rw [call_trace, hx] at hr
    obtain ⟨m, e, h⟩ := readFailed_path hr
    cases h
  · rintro ⟨d', err, hu⟩
    rw [call_deployWrites, hx] at hu
    simp [Exit.deployWrites] at hu

/-- The metrics fetch, the Deployment read and the Deployment Update, if any, succeeded. -/
def Call.Succeeded (rt : Runtime) (c : Call) : Prop :=
  ¬ c.FetchFailed rt ∧ (∃ key d, (⟨.getDeployment key, .ok d⟩ : Exchange) ∈ c.trace) ∧
    ¬ c.UpdateFailed

/-- The two paths of a successful call. -/
theorem succeeded_iff : (call rt w t).Succeeded rt ↔
    ∃ m d, callExit rt w t = .holding m d ∨ ∃ s, callExit rt w t = .scaled m d s := by
  have hx := exits_callExit rt w t
  simp only [Call.Succeeded, Call.FetchFailed, Call.UpdateFailed, call_trace, call_deployWrites,
    call_tick]
  generalize callExit rt w t = x at hx ⊢
  cases hx with
  | unreadable get => simp [Exit.trace]
  | metricsUnavailable get fetch => simp [fetch]
  | targetDeploymentNotFound get fetch read =>
    simp [Exit.trace, Exit.update?, deployTrace, statusTrace, eventTrace]
  | holding get fetch read same =>
    simp [fetch, Exit.trace, Exit.update?, deployTrace, Exit.deployWrites]
    exact ⟨_, _, .inr (.inl ⟨rfl, rfl⟩)⟩
  | scaleFailed get fetch read change update => simp [Exit.deployWrites]
  | scaled get fetch read change update =>
    simp [fetch, Exit.trace, Exit.update?, deployTrace, Exit.deployWrites]
    exact ⟨_, _, .inr (.inl ⟨rfl, rfl⟩)⟩

end InfraDemo.Operator
