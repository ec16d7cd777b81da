import InfraDemo.Operator.Step

/-!
# Evidence — what a scale-down rests on

A usage that asks for a step down is either a stand-in or comes from a line of the response that
says so: the percentage is truncated, and rounding never carries a product over an integer, so a
usage below the threshold means a number below it.  A call that lowers a count in bounds without
such a line is `Blind`, and every blind call does.
-/

namespace InfraDemo.Operator

open InfraDemo.Go InfraDemo.Hysteresis

variable {rt : Runtime} {w : World} {t : Tick}

/-- An accepted change met no error. -/
theorem smooth_of_scaled {m : Metrics} {d : Deployment} {s : DeploymentStore}
    (hx : Exits rt w t (.scaled m d s)) : t.Smooth := by
  cases hx with
  | scaled get fetch read change update =>
    refine ⟨get, (deployAnswer_ok read).1, ?_⟩
    cases he : t.updateErr with
    | none => rfl
    | some err => simp [updateAnswer, he] at update

end InfraDemo.Operator
