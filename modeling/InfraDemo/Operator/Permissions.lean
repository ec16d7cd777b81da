import InfraDemo.Operator.Interleave

/-!
# Permissions — what the operator can do under a role

A request that its role does not allow is answered with an error or not at all; nothing else is said
about the answers.  `scales_iff` says which requests a role has to allow so that the operator can
scale.  The role of the manifests does not: with it no call ever writes a Deployment, or reports that
it did (`manager_confined`).
-/

namespace InfraDemo.Operator

open InfraDemo.Go

/-! ### Roles -/

/-- A request to the API server, as it is authorised. -/
structure ApiRequest where
  group : String
  resource : String
  subresource : String := ""
  verb : String

def ApiRequest.path (x : ApiRequest) : String :=
  if x.subresource = "" then x.resource else x.resource ++ "/" ++ x.subresource

structure PolicyRule where
  apiGroups : List String
  resources : List String
  verbs : List String

abbrev Role : Type := List PolicyRule

def PolicyRule.Allows (r : PolicyRule) (x : ApiRequest) : Prop :=
  (x.group ∈ r.apiGroups ∨ "*" ∈ r.apiGroups) ∧
  (x.path ∈ r.resources ∨ "*" ∈ r.resources ∨
    x.subresource ≠ "" ∧ "*/" ++ x.subresource ∈ r.resources) ∧
  (x.verb ∈ r.verbs ∨ "*" ∈ r.verbs)

/-- The rules add up. -/
def Role.Allows (role : Role) (x : ApiRequest) : Prop := ∃ r ∈ role, PolicyRule.Allows r x

/-- `manager-role` of `config/rbac/role.yaml`. -/
def managerRole : Role :=
  [{ apiGroups := [""]
     resources := ["events"]
     verbs := ["create", "patch"] },
   { apiGroups := ["lifecycle.ai-infra.demo"]
     resources := ["workloadlifecycles"]
     verbs := ["create", "delete", "get", "list", "patch", "update", "watch"] },
   { apiGroups := ["lifecycle.ai-infra.demo"]
     resources := ["workloadlifecycles/finalizers"]
     verbs := ["update"] },
   { apiGroups := ["lifecycle.ai-infra.demo"]
     resources := ["workloadlifecycles/status"]
     verbs := ["get", "patch", "update"] }]

/-! ### Requests of the controller -/

def workloadAccess (verb : String) : ApiRequest :=
  { group := "lifecycle.ai-infra.demo", resource := "workloadlifecycles", verb }

def statusAccess (verb : String) : ApiRequest :=
  { workloadAccess verb with subresource := "status" }

def deploymentAccess (verb : String) : ApiRequest :=
  { group := "apps", resource := "deployments", verb }

def eventAccess (verb : String) : ApiRequest := { group := "", resource := "events", verb }

/-- The requests behind a call.  The client of the manager reads from a cache, which lists and watches
the objects of a kind; an event that occurs again is patched. -/
def Op.needs : Op → List ApiRequest
  | .getWorkload _ => [workloadAccess "list", workloadAccess "watch"]
  | .getDeployment _ => [deploymentAccess "list", deploymentAccess "watch"]
  | .updateDeployment _ => [deploymentAccess "update"]
  | .updateStatus _ => [statusAccess "update"]
  | .recordEvent _ => [eventAccess "create", eventAccess "patch"]
  | .httpGet _ | .now _ => []

/-- The API server has done what was asked.  What becomes of an event is not known to the caller. -/
def Exchange.Accepted : Exchange → Prop
  | ⟨.getWorkload _, .ok _⟩ | ⟨.getDeployment _, .ok _⟩ | ⟨.updateDeployment _, none⟩
  | ⟨.updateStatus _, none⟩ => True
  | _ => False

/-- The answer is one that can be given under the role. -/
def Role.Enforces (role : Role) (e : Exchange) : Prop := e.Accepted → ∀ x ∈ e.1.needs, role.Allows x

variable (rt : Runtime)

/-! ### Scaling -/

/-- A call can have a Deployment write accepted. -/
def CanScale (role : Role) : Prop := ∃ req h r d, Prog.Returns (reconcile rt req) h r ∧
  (∀ e ∈ h, role.Enforces e) ∧ (⟨.updateDeployment d, none⟩ : Exchange) ∈ h

/-- What scaling takes. -/
def scalingAccess : List ApiRequest :=
  [workloadAccess "list", workloadAccess "watch", deploymentAccess "list", deploymentAccess "watch",
    deploymentAccess "update"]

theorem scalingAccess_eq (key key' : ObjectKey) (d : Deployment) : scalingAccess =
    (Op.getWorkload key).needs ++ (Op.getDeployment key').needs ++ (Op.updateDeployment d).needs :=
  rfl

section Scaling

variable {rt} {role : Role}

theorem workload?_eq_some {e : Exchange} {wl : WorkloadLifecycle} (h : e.workload? = some wl) :
    ∃ key, e = ⟨.getWorkload key, .ok wl⟩ := by
  unfold Exchange.workload? at h
  split at h
  · next key wl' =>
    cases h
    exact ⟨key, rfl⟩
  · cases h

theorem exists_of_filterMap {β : Type} {f : Exchange → Option β} {h : List Exchange} {y : β}
    (hf : h.filterMap f = [y]) : ∃ e ∈ h, f e = some y :=
  List.mem_filterMap.mp (hf ▸ List.mem_singleton_self y)

/-- A call that scales has read its object and its target. -/
theorem allowed_of_canScale (h : CanScale rt role) : ∀ x ∈ scalingAccess, role.Allows x := by
  obtain ⟨req, h, r, d, hr, henforced, hmem⟩ := h
  have hobeys := ((reconcile_ensures rt req).of_returns Prog.obeys_nil hr).2
  obtain ⟨h₀, h₁, rfl⟩ := List.append_of_mem hmem
  obtain ⟨wl, answer, metrics, d₀, hseen, -⟩ := hobeys h₀ _ _ h₁ rfl
  obtain ⟨e, he, hwl⟩ := exists_of_filterMap (congrArg Seen.workloads hseen)
  obtain ⟨e', he', hd⟩ := exists_of_filterMap (congrArg Seen.reads hseen)
  obtain ⟨key, rfl⟩ := workload?_eq_some hwl
  obtain ⟨key', rfl⟩ := deployRead?_eq_some hd
  have hget := henforced _ (List.mem_append_left _ he) trivial
  have hread := henforced _ (List.mem_append_left _ he') trivial
  have hupdate := henforced _ hmem trivial
  rw [scalingAccess_eq key key' d]
  simp only [List.mem_append]
  rintro x ((hx | hx) | hx)
  · exact hget x hx
  · exact hread x hx
  · exact hupdate x hx

theorem mem_trace_of_scaled {w : World} {t : Tick} {m : Metrics} {d : Deployment}
    {store : DeploymentStore} (hx : callExit rt w t = .scaled m d store) :
    (⟨.updateDeployment (submitted (w.disturb t) m d), none⟩ : Exchange) ∈ (call rt w t).trace := by
  have hwrite : (submitted (w.disturb t) m d, none) ∈ (call rt w t).deployWrites := by
    rw [call_deployWrites, hx]
    exact List.mem_singleton.mpr rfl
  obtain ⟨e, hmem, he⟩ := List.mem_filterMap.mp hwrite
  rwa [deployWrite?_eq_some he] at hmem

/-- 90 percent are served, and the status write is refused. -/
def statusRefused : Tick :=
  { Tick.serving "vllm_kv_cache_usage_perc 0.9" with
    statusErr := some { notFound := false, text := "forbidden" } }

/-- The sample is scaled also where its status cannot be written. -/
theorem canScale_of_allowed (h : ∀ x ∈ scalingAccess, role.Allows x) : CanScale (.exact 0) role := by
  have hd : ((World.fresh .sample (some 2)).disturb statusRefused).target = some _ := rfl
  have hsmooth : statusRefused.Smooth := ⟨rfl, rfl, rfl⟩
  rcases smooth_exits hsmooth readAnswer_ninety hd (by decide) with ⟨hsame, -⟩ | ⟨store, -, hx⟩
  · exact absurd hsame (by decide)
  · have hmem := mem_trace_of_scaled (callExit_eq _ _ _ hx)
    refine ⟨_, _, _, _, Prog.returns_run (handle statusRefused) _ _, fun e he hy x hx => ?_, hmem⟩
    obtain ⟨o, w, rfl⟩ := Prog.answered_of_mem_trace he
    cases o with
    | getWorkload => exact h x (List.mem_append_left _ hx)
    | getDeployment => exact h x (List.mem_append_right [_, _] (List.mem_append_left [_] hx))
    | updateDeployment => exact h x (List.mem_append_right [_, _, _, _] hx)
    | updateStatus wl => exact hy.elim
    | httpGet | recordEvent | now => exact hy.elim

/-- **What the operator must be allowed.**  Under a role, some call of `reconcile` has a Deployment
write accepted exactly if the role allows to list and watch both kinds of object and to update
Deployments. -/
theorem scales_iff (role : Role) :
    (∃ rt, CanScale rt role) ↔ ∀ x ∈ scalingAccess, role.Allows x :=
  ⟨fun ⟨_, h⟩ => allowed_of_canScale h, fun h => ⟨_, canScale_of_allowed h⟩⟩

end Scaling

/-! ### The manager's role -/

/-- What a call does that gets no Deployment: its status says what it could not observe, keeps the
last count it wanted and the time of the last scaling, and its events are those of observation. -/
def Confined (h : List Exchange) : Op → Prop
  | .updateDeployment _ => False
  | .updateStatus wl => ∃ read, (seen h).workloads = [read] ∧
      (wl.status.lastTransitionReason = reasonMetricsUnavailable ∨
        wl.status.lastTransitionReason = reasonTargetDeploymentNotFound) ∧
      wl.status.desiredReplicas = read.status.desiredReplicas ∧
      wl.status.lastScaleTime = read.status.lastScaleTime
  | .recordEvent event => event.reason = reasonMetricsUnavailable ∨
      event.reason = reasonTargetDeploymentNotFound ∨ event.reason = reasonRecovered
  | _ => True

/-- Every answer can be given under the role. -/
def Role.Answers (role : Role) (_ : List Exchange) (o : Op) (x : o.Ans) : Prop :=
  role.Enforces ⟨o, x⟩

section Confined

variable {rt} {role : Role} {h : List Exchange}

theorem confined_recordEventIf {cond : Prop} [Decidable cond] {event : Event}
    (hevent : Confined h (.recordEvent event)) {Q : Unit → List Exchange → Prop}
    (hQ : ∀ h', seen h' = seen h → Q () h') :
    Prog.Ensures Confined role.Answers (recordEventIf cond event) h Q := by
  unfold recordEventIf
  split_ifs
  · exact ⟨hevent, fun x _ => hQ _ (seen_recordEvent h event x)⟩
  · exact hQ h rfl

/-- The status of an update that does not scale. -/
theorem confined_recordStatus {wl : WorkloadLifecycle} {u : StatusUpdate} {α : Type} {a : α}
    (hseen : (seen h).workloads = [wl]) (hscale : u.scaledNow = false)
    (hdesired : u.desiredReplicas = none)
    (hreason : u.reason = reasonMetricsUnavailable ∨ u.reason = reasonTargetDeploymentNotFound) :
    Prog.Ensures Confined role.Answers (do recordStatus rt wl u; pure a) h fun _ _ => True := by
  have htime : scaleTime wl u = pure wl.status.lastScaleTime := by
    unfold scaleTime
    rw [hscale]
    exact if_neg Bool.false_ne_true
  unfold recordStatus
  simp only [htime, Prog.ensures_bind, Prog.ensures_perform, Prog.ensures_pure]
  refine ⟨trivial, fun t₁ _ => ⟨trivial, fun t₂ _ => ⟨?_, fun _ _ => trivial⟩⟩⟩
  refine ⟨wl, ?_, hreason, ?_, rfl⟩
  · rw [seen_now, seen_now, hseen]
  · rw [hdesired, Option.getD_none]

/-- **The contract without Deployments.** -/
theorem reconcile_confined (hrole : ∀ verb, ¬ role.Allows (deploymentAccess verb))
    (req : ObjectKey) :
    Prog.Ensures Confined role.Answers (reconcile rt req) [] fun _ _ => True := by
  unfold reconcile
  rw [Prog.ensures_bind, Prog.ensures_perform]
  refine ⟨trivial, fun x _ => ?_⟩
  cases x with
  | error err => trivial
  | ok wl =>
    have hwl := seen_workload [] req wl
    generalize [] ++ [(⟨.getWorkload req, .ok wl⟩ : Exchange)] = h₁ at hwl ⊢
    simp only [observeMetrics, Prog.ensures_bind, Prog.ensures_perform, Prog.ensures_pure]
    refine ⟨trivial, fun answer _ => ?_⟩
    have hanswer := seen_httpGet h₁ wl.spec.metricsEndpoint answer
    rw [hwl] at hanswer
    generalize h₁ ++ [(⟨.httpGet wl.spec.metricsEndpoint, answer⟩ : Exchange)] = h₂ at hanswer ⊢
    cases readAnswer rt.toPlatform answer with
    | error err =>
      rw [Prog.ensures_bind]
      refine confined_recordEventIf (.inl rfl) fun h₃ h₃eq => ?_
      exact confined_recordStatus (by rw [h₃eq, hanswer]; rfl) rfl rfl (.inl rfl)
    | ok metrics =>
      simp only [observeDeployment, Prog.ensures_bind, Prog.ensures_perform]
      refine confined_recordEventIf (.inr (.inr rfl)) fun h₃ h₃eq => ⟨trivial, fun y hy => ?_⟩
      cases y with
      | ok d => exact absurd (hy trivial _ (List.mem_cons_self ..)) (hrole "list")
      | error err =>
        rw [Prog.ensures_pure, Prog.ensures_bind]
        refine confined_recordEventIf (.inr (.inl rfl)) fun h₄ h₄eq => ?_
        refine confined_recordStatus ?_ rfl rfl (.inr rfl)
        rw [h₄eq, seen_readFailed, h₃eq, hanswer]
        rfl

end Confined

/-- The systems that are reached when the requests of the calls are authorised under the role. -/
inductive System.ReachableUnder (role : Role) : System → Prop where
  | init (server : Server) : ReachableUnder role { server, running := fun _ => none }
  | step {s s' : System} {l : System.Label} (reached : ReachableUnder role s) (step : s.Step rt l s')
      (enforced : ∀ i h e, l = .exchange i h e → role.Enforces e) : ReachableUnder role s'

section System

variable {rt} {role : Role} {s s' : System} {l : System.Label}

/-- A call in progress keeps to the contract. -/
def Running.Confined (role : Role) (r : Running) : Prop :=
  r.rest.Ensures Operator.Confined role.Answers r.history fun _ _ => True

/-- Every call in progress keeps to the contract, and no Update is on its way. -/
structure System.Confined (role : Role) (s : System) : Prop where
  running : ∀ i r, s.running i = some r → r.Confined role
  lost : s.lost = ∅

theorem confined_step (hrole : ∀ verb, ¬ role.Allows (deploymentAccess verb))
    (h : s.Step rt l s') (henforced : ∀ i h e, l = .exchange i h e → role.Enforces e)
    (hs : s.Confined role) : s'.Confined role := by
  have hkeep : ∀ r₀ i₀, r₀.Confined role → ∀ i r,
      Function.update s.running i₀ (some r₀) i = some r → r.Confined role := by
    intro r₀ i₀ hr₀ i r hr
    by_cases hi : i = i₀
    · subst hi
      rw [Function.update_self, Option.some_inj] at hr
      exact hr ▸ hr₀
    · rw [Function.update_of_ne hi] at hr
      exact hs.running i r hr
  cases h with
  | put | erase => exact ⟨hs.running, hs.lost⟩
  | start i req free => exact ⟨hkeep _ _ (reconcile_confined hrole req), hs.lost⟩
  | @exchange i o k h x server next answer =>
    exact ⟨hkeep _ _ ((hs.running i _ next).2 x (henforced i h _ rfl)), hs.lost⟩
  | lose err next => exact (hs.running _ _ next).1.elim
  | arrive sent takes =>
    rw [hs.lost] at sent
    exact sent.elim

theorem confined_of_reachable (hrole : ∀ verb, ¬ role.Allows (deploymentAccess verb))
    (h : s.ReachableUnder rt role) : s.Confined role := by
  induction h with
  | init server => exact ⟨fun _ _ hr => absurd hr (by simp), rfl⟩
  | step _ step enforced ih => exact confined_step hrole step enforced ih

/-- No rule of the manifests is about Deployments. -/
theorem managerRole_deployments (verb : String) : ¬ managerRole.Allows (deploymentAccess verb) := by
  have hnone : ∀ r ∈ managerRole, ¬ ("apps" ∈ r.apiGroups ∨ "*" ∈ r.apiGroups) := by decide
  rintro ⟨r, hr, hgroup, -⟩
  exact hnone r hr hgroup

/-- **The operator under the role of its manifests.**  Whatever its calls and other clients do, no
call asks for a Deployment write and none is on its way, every status says that the metrics or the
target could not be observed, and nothing that the operator says tells of a scaling. -/
theorem manager_confined (h : s.ReachableUnder rt managerRole) {i : ℕ} {hist : List Exchange}
    {o : Op} {x : o.Ans} (hs : s.Step rt (.exchange i hist ⟨o, x⟩) s') : s'.server = s.server ∧
      s.lost = ∅ ∧ ∃ r, s.running i = some r ∧ Confined r.history o := by
  have hall := confined_of_reachable managerRole_deployments h
  cases hs with
  | exchange next answer =>
    have hcalls := (hall.running i _ next).1
    refine ⟨?_, hall.lost, _, next, hcalls⟩
    cases answer with
    | rejected | accepted => exact hcalls.elim
    | _ => rfl
  | lose err next => exact (hall.running i _ next).1.elim

theorem managerRole_workloads {key : ObjectKey} {x : Except ApiError WorkloadLifecycle} :
    managerRole.Enforces ⟨.getWorkload key, x⟩ := by
  refine fun _ x hx => ⟨_, List.mem_cons_of_mem _ List.mem_cons_self, ?_⟩
  rcases List.mem_cons.mp hx with rfl | hx
  · unfold PolicyRule.Allows
    decide
  · rw [List.mem_singleton.mp hx]
    unfold PolicyRule.Allows
    decide

/-- The event of the sample, whose metrics cannot be fetched. -/
def fetchFailed : Event :=
  warning (World.fresh .sample none).wl reasonMetricsUnavailable "calling metrics endpoint: refused"

/-- A call in progress is answered. -/
theorem System.ReachableUnder.answered (h : s.ReachableUnder rt role) {i : ℕ} {o : Op}
    {k : o.Ans → Action (Result × Option ApiError)} {hist : List Exchange}
    (hrun : s.running i = some ⟨.call o k, hist⟩) (x : o.Ans) (hx : role.Enforces ⟨o, x⟩)
    (hanswer : Answers s.server o x s.server) : ∃ s' : System, s'.ReachableUnder rt role ∧
      s'.running i = some ⟨k x, hist ++ [⟨o, x⟩]⟩ := by
  refine ⟨_, h.step (.exchange hrun hanswer) fun _ _ _ he => ?_, Function.update_self ..⟩
  cases he
  exact hx

theorem reachable_fetchFailed : ∃ (s : System) (h : List Exchange) (k : Unit → Action _),
    s.ReachableUnder (.exact 0) managerRole ∧
      s.running 0 = some ⟨.call (.recordEvent fetchFailed) k, h⟩ := by
  obtain ⟨s₁, hs₁, hrun₁⟩ : ∃ s₁ : System, s₁.ReachableUnder (.exact 0) managerRole ∧
      s₁.running 0 = some ⟨reconcile (.exact 0) (World.fresh .sample none).wl.key, []⟩ :=
    ⟨_, .step (.init (.single ⟨⟨"default", "mock-vllm"⟩, 1, none, []⟩))
      (.start 0 (World.fresh .sample none).wl.key rfl) nofun, rfl⟩
  obtain ⟨s₂, hs₂, hrun₂⟩ := hs₁.answered hrun₁ (.ok (World.fresh .sample none).wl)
    managerRole_workloads (.getWorkload _ _)
  obtain ⟨s₃, hs₃, hrun₃⟩ := hs₂.answered hrun₂ (.failed "refused") nofun (.httpGet _ _)
  exact ⟨s₃, _, _, hs₃, hrun₃⟩

theorem manager_confined_fetchFailed : ∃ (s s' : System) (h : List Exchange),
    s.Step (.exact 0) (.exchange 0 h ⟨.recordEvent fetchFailed, ()⟩) s' ∧ s'.server = s.server ∧
      Confined h (.recordEvent fetchFailed) := by
  obtain ⟨s, h, k, hs, hrun⟩ := reachable_fetchFailed
  have hstep : s.Step (.exact 0) _ _ := .exchange hrun (.recordEvent fetchFailed ())
  obtain ⟨hserver, -, r, hr, hconfined⟩ := manager_confined hs hstep
  obtain rfl : r = _ := Option.some_inj.mp (hr.symm.trans hrun)
  exact ⟨s, _, h, hstep, hserver, hconfined⟩

end System

end InfraDemo.Operator
