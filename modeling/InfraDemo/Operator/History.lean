import InfraDemo.Operator.Trace

/-!
# History — the time of the last scaling

The Deployment and the status are written one after the other, and an error of the second write is
swallowed.  So the stored `LastScaleTime` is that of the last call both of whose writes went through
(`stored_scaleTime`), which need not be the last that changed the replica count.
-/

namespace InfraDemo.Operator

open InfraDemo.Go

/-- The API server accepted a replica change of the call. -/
def Call.Accepted (c : Call) : Prop := ∃ write ∈ c.deployWrites, write.2 = none

instance : DecidablePred Call.Accepted := fun c =>
  inferInstanceAs (Decidable (∃ write ∈ c.deployWrites, write.2 = none))

/-- When the call scaled, if it did. -/
def Call.scaleTime (c : Call) : Time := c.tick.clock .lastScaleTime

/-- The calls with an accepted replica change. -/
def accepted (cs : List Call) : List Call := cs.filter fun c => c.Accepted

/-- The most recent of them. -/
def lastAccepted (cs : List Call) : Option Call := (accepted cs).getLast?

/-- The most recent of them whose own status write persisted. -/
def lastKept (cs : List Call) : Option Call := ((accepted cs).filter fun c => c.Persisted).getLast?

section Lists

variable {cs : List Call} {c : Call}

theorem lastKept_concat (ha : c.Accepted) (hp : c.Persisted) : lastKept (cs ++ [c]) = some c := by
  simp [lastKept, accepted, ha, hp]

theorem lastKept_concat_of_not (h : ¬ (c.Accepted ∧ c.Persisted)) :
    lastKept (cs ++ [c]) = lastKept cs := by
  by_cases ha : c.Accepted
  · have hp : ¬ c.Persisted := fun hp => h ⟨ha, hp⟩
    simp [lastKept, accepted, ha, hp]
  · simp [lastKept, accepted, ha]

/-- A last accepted change whose status write persisted is the last kept. -/
theorem lastKept_of_persisted (h : lastAccepted cs = some c) (hp : c.Persisted) :
    lastKept cs = some c := by
  obtain ⟨pre, hpre⟩ := List.getLast?_eq_some_iff.mp h
  rw [lastKept, hpre]
  simp [hp]

theorem lastKept_of_none (h : lastAccepted cs = none) : lastKept cs = none := by
  rw [lastKept, List.getLast?_eq_none_iff.mp h]
  rfl

end Lists

variable {rt : Runtime} {w : World} {t : Tick} {ts : List Tick}

/-- A call marks its status update as a scaling exactly when its replica change was accepted. -/
theorem accepted_iff {u : StatusUpdate} (hu : (call rt w t).update? rt = some u) :
    (call rt w t).Accepted ↔ u.scaledNow = true := by
  rw [Call.Accepted, call_deployWrites]
  rw [update?_call] at hu
  cases hx : callExit rt w t with
  | unreadable err =>
    rw [hx] at hu
    cases hu
  | _ =>
    rw [hx] at hu
    cases hu
    simp [Exit.deployWrites]

/-- One call keeps it: the stored time is that of the last kept change. -/
theorem scaleTime_step {cs : List Call}
    (h : w.wl.status.lastScaleTime = (lastKept cs).map Call.scaleTime) :
    (next rt w t).wl.status.lastScaleTime =
      (lastKept (cs ++ [call rt w t])).map Call.scaleTime := by
  rcases after_status rt w t with ⟨hp, u, hu, hs⟩ | ⟨hno, hs⟩
  · rw [hs]
    by_cases ha : (call rt w t).Accepted
    · rw [lastKept_concat ha hp]
      exact if_pos ((accepted_iff hu).mp ha)
    · rw [lastKept_concat_of_not fun hk => ha hk.1, ← h, ← disturb_status w t]
      exact if_neg fun hsc => ha ((accepted_iff hu).mpr hsc)
  · rw [hs, lastKept_concat_of_not fun hk => hno hk.2, h]

variable (rt) in
/-- **The stored `LastScaleTime`** is that of the last accepted change whose status write
persisted. -/
theorem stored_scaleTime (h0 : w.wl.status.lastScaleTime = none) (ts : List Tick) :
    (Run.final (next rt) w ts).wl.status.lastScaleTime =
      (lastKept (calls rt w ts)).map Call.scaleTime :=
  Run.final_rec (J := fun cs (v : World) =>
      v.wl.status.lastScaleTime = (lastKept cs).map Call.scaleTime) (A := fun _ => True) h0
    (fun _ _ _ _ h => scaleTime_step h) ts fun _ _ => trivial

/-- The same right after a call of the run. -/
theorem scaleTime_after (h0 : w.wl.status.lastScaleTime = none) {pre : List Call} {c : Call}
    {post : List Call} (hcs : calls rt w ts = pre ++ c :: post) :
    c.after.wl.status.lastScaleTime = (lastKept (pre ++ [c])).map Call.scaleTime := by
  obtain ⟨us, t, vs, rfl, rfl, rfl⟩ := Run.records_eq_append_cons hcs
  have hcalls := Run.records_concat (next rt) (call rt) w us t
  rw [← hcalls]
  exact (congrArg (fun v : World => v.wl.status.lastScaleTime)
    (Run.final_concat (next rt) w us t).symm).trans (stored_scaleTime rt h0 (us ++ [t]))

/-- **When `LastScaleTime` is current.**  In every run, after a call whose status write persisted it
is the time of the most recent accepted change exactly when the status write of that call persisted,
too, or the last one that did is of the same time. -/
theorem lastScaleTime_current_iff (h0 : w.wl.status.lastScaleTime = none) :
    ∀ pre c post, calls rt w ts = pre ++ c :: post → c.Persisted →
      (c.after.wl.status.lastScaleTime = (lastAccepted (pre ++ [c])).map Call.scaleTime ↔
        ∀ a, lastAccepted (pre ++ [c]) = some a →
          a.Persisted ∨ ∃ b, lastKept (pre ++ [c]) = some b ∧ b.scaleTime = a.scaleTime) := by
  intro pre c post hcs _
  rw [scaleTime_after h0 hcs]
  generalize pre ++ [c] = cs
  cases ha : lastAccepted cs with
  | none => simp [lastKept_of_none ha]
  | some a =>
    simp only [Option.map_some, Option.map_eq_some_iff, Option.some_inj, forall_eq']
    constructor
    · exact .inr
    · rintro (hp | hb)
      · exact ⟨a, lastKept_of_persisted ha hp, rfl⟩
      · exact hb

/-- An almost full cache, and a failed status write. -/
def Tick.unrecorded : Tick :=
  { Tick.serving "vllm_kv_cache_usage_perc 0.9" with
    statusErr := some { notFound := false, text := "the object has been modified" } }

/-- The call on the sample object with two replicas under it. -/
def unrecordedCall : Call := call (.exact 0) (.fresh .sample (some 2)) .unrecorded

/-- The call after it, without metrics. -/
def laterCall : Call :=
  call (.exact 0) (next (.exact 0) (.fresh .sample (some 2)) .unrecorded) .unreachable

/-- Both. -/
def unrecordedCalls : List Call := [unrecordedCall, laterCall]

theorem laterCall_persisted : laterCall.Persisted :=
  persisted_of_quiet (t := .unreachable) (by decide)

theorem lastScaleTime_current_iff_sample :
    laterCall.after.wl.status.lastScaleTime =
        (lastAccepted unrecordedCalls).map Call.scaleTime ↔
      ∀ a, lastAccepted unrecordedCalls = some a →
        a.Persisted ∨ ∃ b, lastKept unrecordedCalls = some b ∧ b.scaleTime = a.scaleTime :=
  have hcalls : calls (.exact 0) (.fresh .sample (some 2)) [.unrecorded, .unreachable] =
      [unrecordedCall] ++ laterCall :: [] := rfl
  lastScaleTime_current_iff rfl [unrecordedCall] laterCall [] hcalls laterCall_persisted

/-- A scaling whose status write fails: its time is lost. -/
theorem scaleTime_of_unrecorded_lost :
    ¬ ∀ (rt : Runtime) (w : World) (ts : List Tick), w.wl.status = {} →
      ∀ pre c post, calls rt w ts = pre ++ c :: post → c.Persisted →
        c.after.wl.status.lastScaleTime = (lastAccepted (pre ++ [c])).map Call.scaleTime := by
  intro h
  obtain ⟨m, d, s, hx⟩ : ∃ m d s,
      callExit (.exact 0) (.fresh .sample (some 2)) .unrecorded = .scaled m d s :=
    ⟨_, _, _, callExit_eq (.exact 0) _ _ (.scaled rfl readAnswer_ninety rfl (by decide) rfl)⟩
  have haccepted : unrecordedCall.Accepted := by
    rw [Call.Accepted, unrecordedCall, call_deployWrites, hx]
    exact ⟨_, List.mem_singleton.mpr rfl, rfl⟩
  have hlost : ¬ unrecordedCall.Persisted := by
    rintro ⟨wl, hwl⟩
    rw [unrecordedCall, call_statusWrites, hx, Exit.statusWrites, Exit.update?,
      List.mem_singleton] at hwl
    cases hwl
  have hlater : ¬ laterCall.Accepted := by
    rw [Call.Accepted, laterCall, call_deployWrites,
      callExit_eq (.exact 0) _ .unreachable (.metricsUnavailable rfl rfl)]
    rintro ⟨write, hwrite, -⟩
    cases hwrite
  have hlast : lastAccepted unrecordedCalls = some unrecordedCall := by
    simp [lastAccepted, accepted, unrecordedCalls, haccepted, hlater]
  have hkept : lastKept unrecordedCalls = none := by
    simp [lastKept, accepted, unrecordedCalls, haccepted, hlater, hlost]
  have hcalls : calls (.exact 0) (.fresh .sample (some 2)) [.unrecorded, .unreachable] =
      [unrecordedCall] ++ laterCall :: [] := rfl
  have hclaim := h (.exact 0) (.fresh .sample (some 2)) [.unrecorded, .unreachable] rfl
    [unrecordedCall] laterCall [] hcalls laterCall_persisted
  rw [scaleTime_after rfl hcalls, show [unrecordedCall] ++ [laterCall] = unrecordedCalls from rfl,
    hlast, hkept] at hclaim
  cases hclaim

end InfraDemo.Operator
