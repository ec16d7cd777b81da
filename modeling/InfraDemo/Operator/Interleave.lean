import Mathlib.Data.Set.Basic
import InfraDemo.Lib.Contract
import InfraDemo.Lib.Steps
import InfraDemo.Operator.Writes

/-!
# Interleave — calls that run one exchange at a time

Any number of calls of `reconcile` and any number of other clients share one API server.  A `System`
holds the server and the calls in progress, each with the exchanges it made so far; a step is a write
of another client, the start of a call or one exchange of one call.  A Deployment read may return any
version that was ever stored, and the server accepts an Update only of the stored version.  A call
whose answer is lost gets an error, and the Update it submitted may still arrive, at any later time.

What a call submits is a matter of its own exchanges (`reconcile_ensures`); that the version it read
is the one it replaces is a matter of resource versions (`Server.unique`).  Together: no update of
another client is lost (`no_lost_update`).
-/

namespace InfraDemo.Operator

open InfraDemo.Go

/-! ### What a call has seen -/

def Exchange.workload? : Exchange → Option WorkloadLifecycle
  | ⟨.getWorkload _, .ok wl⟩ => some wl
  | _ => none

def Exchange.fetched? : Exchange → Option HttpAnswer
  | ⟨.httpGet _, answer⟩ => some answer
  | _ => none

def Exchange.deployRead? : Exchange → Option Deployment
  | ⟨.getDeployment _, .ok deploy⟩ => some deploy
  | _ => none

theorem deployRead?_eq_some {e : Exchange} {d : Deployment} (h : e.deployRead? = some d) :
    ∃ key, e = ⟨.getDeployment key, .ok d⟩ := by
  unfold Exchange.deployRead? at h
  split at h
  · next key d' =>
    cases h
    exact ⟨key, rfl⟩
  · cases h

theorem deployWrite?_eq_some {e : Exchange} {d : Deployment} {x : Option ApiError}
    (h : e.deployWrite? = some (d, x)) : e = ⟨.updateDeployment d, x⟩ := by
  unfold Exchange.deployWrite? at h
  split at h
  · cases h
    rfl
  · cases h

/-- The objects, metrics answers and Deployments a call has got, and the Deployments it has submitted
with their answers. -/
@[ext] structure Seen where
  workloads : List WorkloadLifecycle
  answers : List HttpAnswer
  reads : List Deployment
  writes : List (Deployment × Option ApiError)

def seen (h : List Exchange) : Seen where
  workloads := h.filterMap Exchange.workload?
  answers := h.filterMap Exchange.fetched?
  reads := h.filterMap Exchange.deployRead?
  writes := h.filterMap Exchange.deployWrite?

section SeenLemmas

/-- What was seen before comes first in what is seen in the end. -/
theorem seen_append (h₀ h₁ : List Exchange) : seen (h₀ ++ h₁) =
    ⟨(seen h₀).workloads ++ (seen h₁).workloads, (seen h₀).answers ++ (seen h₁).answers,
      (seen h₀).reads ++ (seen h₁).reads, (seen h₀).writes ++ (seen h₁).writes⟩ := by
  simp only [seen, List.filterMap_append]

variable (h : List Exchange)

theorem seen_append_silent {e : Exchange} (he : seen [e] = ⟨[], [], [], []⟩) :
    seen (h ++ [e]) = seen h := by
  rw [seen_append, he]
  simp only [List.append_nil]

@[simp] theorem seen_workload (key : ObjectKey) (wl : WorkloadLifecycle) :
    seen (h ++ [⟨.getWorkload key, .ok wl⟩]) =
      { seen h with workloads := (seen h).workloads ++ [wl] } := by
  rw [seen_append]
  exact Seen.ext rfl (List.append_nil _) (List.append_nil _) (List.append_nil _)

@[simp] theorem seen_unreadable (key : ObjectKey) (err : ApiError) :
    seen (h ++ [⟨.getWorkload key, .error err⟩]) = seen h := seen_append_silent h rfl

@[simp] theorem seen_httpGet (endpoint : String) (answer : HttpAnswer) :
    seen (h ++ [⟨.httpGet endpoint, answer⟩]) =
      { seen h with answers := (seen h).answers ++ [answer] } := by
  rw [seen_append]
  exact Seen.ext (List.append_nil _) rfl (List.append_nil _) (List.append_nil _)

@[simp] theorem seen_deployment (key : ObjectKey) (d : Deployment) :
    seen (h ++ [⟨.getDeployment key, .ok d⟩]) =
      { seen h with reads := (seen h).reads ++ [d] } := by
  rw [seen_append]
  exact Seen.ext (List.append_nil _) (List.append_nil _) rfl (List.append_nil _)

@[simp] theorem seen_readFailed (key : ObjectKey) (err : ApiError) :
    seen (h ++ [⟨.getDeployment key, .error err⟩]) = seen h := seen_append_silent h rfl

@[simp] theorem seen_updateDeployment (d : Deployment) (x : Option ApiError) :
    seen (h ++ [⟨.updateDeployment d, x⟩]) =
      { seen h with writes := (seen h).writes ++ [(d, x)] } := by
  rw [seen_append]
  exact Seen.ext (List.append_nil _) (List.append_nil _) (List.append_nil _) rfl

@[simp] theorem seen_updateStatus (wl : WorkloadLifecycle) (x : Option ApiError) :
    seen (h ++ [⟨.updateStatus wl, x⟩]) = seen h := seen_append_silent h rfl

@[simp] theorem seen_recordEvent (e : Event) (x : Unit) :
    seen (h ++ [⟨.recordEvent e, x⟩]) = seen h := seen_append_silent h rfl

@[simp] theorem seen_now (stamp : Stamp) (x : Time) : seen (h ++ [⟨.now stamp, x⟩]) = seen h :=
  seen_append_silent h rfl

end SeenLemmas

/-! ### The contract of `reconcile` -/

variable (rt : Runtime)

/-- The Update `d'` is the decision on what the call has seen: one object, one metrics answer, one
Deployment whose count the rule changes, nothing submitted yet; and `d'` is that Deployment with the
desired count. -/
def Decided (h : List Exchange) (d' : Deployment) : Prop :=
  ∃ wl answer metrics d, seen h = ⟨[wl], [answer], [d], []⟩ ∧
    readAnswer rt.toPlatform answer = .ok metrics ∧
    computeDesiredReplicas d.count metrics.kvCacheUsagePercent wl.spec ≠ d.count ∧
    d' = { d with
      replicas := some (computeDesiredReplicas d.count metrics.kvCacheUsagePercent wl.spec) }

/-- What a call may do after the exchanges `h`: read the target of its object, and submit what it
decided. -/
def Calls (h : List Exchange) : Op → Prop
  | .getDeployment key => ∃ wl, (seen h).workloads = [wl] ∧ key = wl.deployKey
  | .updateDeployment d => Decided rt h d
  | _ => True

/-- A rejected Update has been followed by a status with reason ScaleFailed. -/
def Reported (h : List Exchange) : Prop :=
  ∀ d err, (d, some err) ∈ (seen h).writes → ∃ wl x,
    (⟨.updateStatus wl, x⟩ : Exchange) ∈ h ∧ wl.status.lastTransitionReason = reasonScaleFailed

/-- Answers are arbitrary. -/
def AnyAnswer (_ : List Exchange) (o : Op) (_ : o.Ans) : Prop := True

section Helpers

variable {rt} {h : List Exchange}

theorem ensures_recordEventIf {cond : Prop} [Decidable cond] {event : Event}
    {Q : Unit → List Exchange → Prop} (hQ : ∀ h', seen h' = seen h → Q () h') :
    Prog.Ensures (Calls rt) AnyAnswer (recordEventIf cond event) h Q := by
  unfold recordEventIf
  split_ifs
  · exact ⟨trivial, fun x _ => hQ _ (seen_recordEvent h event x)⟩
  · exact hQ h rfl

/-- `recordStatus` submits one status, with the reason of the update. -/
theorem ensures_recordStatus {wl : WorkloadLifecycle} {u : StatusUpdate}
    {Q : Unit → List Exchange → Prop}
    (hQ : ∀ h', seen h' = seen h → (∃ wl' x, (⟨.updateStatus wl', x⟩ : Exchange) ∈ h' ∧
      wl'.status.lastTransitionReason = u.reason) → Q () h') :
    Prog.Ensures (Calls rt) AnyAnswer (recordStatus rt wl u) h Q := by
  have hscale : Prog.Ensures (Calls rt) AnyAnswer (scaleTime wl u) h
      fun _ h' => seen h' = seen h := by
    unfold scaleTime
    split_ifs
    · exact ⟨trivial, fun x _ => seen_now h _ x⟩
    · rfl
  unfold recordStatus
  simp only [Prog.ensures_bind, Prog.ensures_perform, Prog.ensures_pure]
  refine hscale.mono fun last h₁ h₁eq => ⟨trivial, fun t₁ _ => ⟨trivial, fun t₂ _ =>
    ⟨trivial, fun x _ => hQ _ ?_ ⟨_, x, ?_, rfl⟩⟩⟩⟩
  · rw [seen_updateStatus, seen_now, seen_now, h₁eq]
  · exact List.mem_append_right _ (List.mem_singleton.mpr rfl)

theorem reported_of_writes_nil (hw : (seen h).writes = []) : Reported h := by
  intro d err hmem
  rw [hw] at hmem
  exact absurd hmem List.not_mem_nil

/-- The adjustment submits the decision, if it changes the count, and reports a rejection. -/
theorem ensures_makeAdjustmentIfNeeded {wl : WorkloadLifecycle} {answer : HttpAnswer}
    {metrics : Metrics} {d : Deployment} (hseen : seen h = ⟨[wl], [answer], [d], []⟩)
    (hm : readAnswer rt.toPlatform answer = .ok metrics) (threshold : Int32) :
    Prog.Ensures (Calls rt) AnyAnswer
      (makeAdjustmentIfNeeded rt wl d d.count
        (computeDesiredReplicas d.count metrics.kvCacheUsagePercent wl.spec)
        metrics.kvCacheUsagePercent threshold) h fun _ h' => Reported h' := by
  unfold makeAdjustmentIfNeeded
  by_cases hsame : computeDesiredReplicas d.count metrics.kvCacheUsagePercent wl.spec = d.count
  · rw [if_pos hsame, Prog.ensures_bind]
    exact ensures_recordStatus fun h' hh' _ => reported_of_writes_nil (by rw [hh', hseen])
  · rw [if_neg hsame, Prog.ensures_bind, Prog.ensures_perform]
    refine ⟨⟨wl, answer, metrics, d, hseen, hm, hsame, rfl⟩, fun x _ => ?_⟩
    cases x with
    | some err =>
      simp only [Prog.ensures_bind, Prog.ensures_pure]
      refine ensures_recordEventIf fun h₁ h₁eq => ensures_recordStatus fun h' hh' hstatus => ?_
      exact fun _ _ _ => hstatus
    | none =>
      simp only [Prog.ensures_bind, Prog.ensures_perform, Prog.ensures_pure]
      refine ⟨trivial, fun _ _ => ensures_recordStatus fun h' hh' _ d' err hmem => ?_⟩
      rw [hh', seen_recordEvent, seen_updateDeployment, hseen] at hmem
      cases List.mem_singleton.mp hmem

end Helpers

/-- **The contract of `reconcile`**, under any answers. -/
theorem reconcile_ensures (req : ObjectKey) :
    Prog.Ensures (Calls rt) AnyAnswer (reconcile rt req) [] fun _ h => Reported h := by
  unfold reconcile
  rw [Prog.ensures_bind, Prog.ensures_perform]
  refine ⟨trivial, fun x _ => ?_⟩
  cases x with
  | error err => exact reported_of_writes_nil (by rw [seen_unreadable]; rfl)
  | ok wl =>
    have hwl := seen_workload [] req wl
    generalize [] ++ [(⟨.getWorkload req, .ok wl⟩ : Exchange)] = h₁ at hwl ⊢
    simp only [observeMetrics, Prog.ensures_bind, Prog.ensures_perform, Prog.ensures_pure]
    refine ⟨trivial, fun answer _ => ?_⟩
    have hanswer := seen_httpGet h₁ wl.spec.metricsEndpoint answer
    rw [hwl] at hanswer
    generalize h₁ ++ [(⟨.httpGet wl.spec.metricsEndpoint, answer⟩ : Exchange)] = h₂ at hanswer ⊢
    cases hm : readAnswer rt.toPlatform answer with
    | error err =>
      simp only [Prog.ensures_bind, Prog.ensures_pure]
      exact ensures_recordEventIf fun h₃ h₃eq => ensures_recordStatus fun h' hh' _ =>
        reported_of_writes_nil (by rw [hh', h₃eq, hanswer]; rfl)
    | ok metrics =>
      simp only [observeDeployment, Prog.ensures_bind, Prog.ensures_perform]
      refine ensures_recordEventIf fun h₃ h₃eq => ?_
      rw [hanswer] at h₃eq
      refine ⟨⟨wl, by rw [h₃eq]; rfl, rfl⟩, fun y _ => ?_⟩
      cases y with
      | error err =>
        simp only [Prog.ensures_bind, Prog.ensures_pure]
        exact ensures_recordEventIf fun h₄ h₄eq => ensures_recordStatus fun h' hh' _ =>
          reported_of_writes_nil (by rw [hh', h₄eq, seen_readFailed, h₃eq]; rfl)
      | ok d =>
        have hread := seen_deployment h₃ wl.deployKey d
        rw [h₃eq] at hread
        simp only [Prog.ensures_bind, Prog.ensures_pure]
        refine ensures_recordEventIf fun h₄ h₄eq => ?_
        exact ensures_makeAdjustmentIfNeeded (h₄eq.trans hread) hm _

/-! ### The API server -/

/-- The API server's Deployments and every version it ever stored.  A resource version is given to
one version of an object only. -/
structure Server where
  store : DeploymentStore
  past : Set Deployment
  current : ∀ k d, store.get k = some d → d ∈ past
  unique : ∀ d ∈ past, ∀ e ∈ past, d.key = e.key → d.resourceVersion = e.resourceVersion → d = e

namespace Server

/-- No version of the object was stored under the resource version of `d`. -/
def Fresh (s : Server) (d : Deployment) : Prop :=
  ∀ e ∈ s.past, e.key = d.key → e.resourceVersion ≠ d.resourceVersion

/-- The server that stores a new version. -/
def put (s : Server) (d : Deployment) (fresh : s.Fresh d) : Server where
  store := s.store.set d
  past := insert d s.past
  current := by
    intro k e he
    by_cases hk : k = d.key
    · subst hk
      rw [DeploymentStore.set_get_self, Option.some_inj] at he
      exact he ▸ Set.mem_insert d s.past
    · rw [DeploymentStore.set_get_of_ne _ hk] at he
      exact Set.mem_insert_of_mem d (s.current k e he)
  unique := by
    rintro e (rfl | he) f (rfl | hf) hk hv
    · rfl
    · exact absurd hv.symm (fresh f hf hk.symm)
    · exact absurd hv (fresh e he hk)
    · exact s.unique e he f hf hk hv

/-- The server that removes an object; its versions are not given again. -/
def erase (s : Server) (key : ObjectKey) : Server where
  store := s.store.erase key
  past := s.past
  current := by
    intro k e he
    by_cases hk : k = key
    · subst hk
      simp [DeploymentStore.erase] at he
    · exact s.current k e (by simpa [DeploymentStore.erase, Function.update_of_ne hk] using he)
  unique := s.unique

/-- The server that has stored one version of one Deployment. -/
def single (d : Deployment) : Server where
  store := DeploymentStore.empty.set d
  past := {d}
  current := by
    intro k e he
    by_cases hk : k = d.key
    · subst hk
      rw [DeploymentStore.set_get_self, Option.some_inj] at he
      exact he.symm
    · rw [DeploymentStore.set_get_of_ne _ hk] at he
      cases he
  unique := by
    rintro e rfl f rfl - -
    rfl

/-- The server can store `d` as version `v`: `d` carries the stored version, and a count that is not
negative. -/
structure Takes (s : Server) (d : Deployment) (v : ℕ) : Prop where
  stored : ∃ stored, s.store.get d.key = some stored ∧ d.resourceVersion = stored.resourceVersion
  count : 0 ≤ d.count.toInt
  fresh : s.Fresh { d with resourceVersion := v }

/-- The server after it has accepted the Update `d`. -/
def update (s : Server) (d : Deployment) (v : ℕ) (h : s.Takes d v) : Server :=
  s.put { d with resourceVersion := v } h.fresh

end Server

/-- How a call can be answered, and the server after it.  Reads of an object, metrics, status writes,
events and the clock are answered in any way; a Deployment read by any version ever stored under the
key; an Update is rejected for any reason, or accepted if the server takes it. -/
inductive Answers (s : Server) : (o : Op) → o.Ans → Server → Prop where
  | getWorkload (key : ObjectKey) (x : Except ApiError WorkloadLifecycle) :
      Answers s (.getWorkload key) x s
  | httpGet (endpoint : String) (x : HttpAnswer) : Answers s (.httpGet endpoint) x s
  | readFailed (key : ObjectKey) (err : ApiError) : Answers s (.getDeployment key) (.error err) s
  | read {key : ObjectKey} {d : Deployment} (stored : d ∈ s.past) (at_key : d.key = key) :
      Answers s (.getDeployment key) (.ok d) s
  | rejected (d : Deployment) (err : ApiError) : Answers s (.updateDeployment d) (some err) s
  | accepted {d : Deployment} {v : ℕ} (takes : s.Takes d v) :
      Answers s (.updateDeployment d) none (s.update d v takes)
  | updateStatus (wl : WorkloadLifecycle) (x : Option ApiError) : Answers s (.updateStatus wl) x s
  | recordEvent (event : Event) (x : Unit) : Answers s (.recordEvent event) x s
  | now (stamp : Stamp) (x : Time) : Answers s (.now stamp) x s

/-! ### Systems -/

/-- A call in progress: what is left of it, and its exchanges so far. -/
structure Running where
  rest : Action (Result × Option ApiError)
  history : List Exchange

/-- An Update whose answer was lost: what its call had seen, and what it submitted. -/
structure Lost where
  history : List Exchange
  deploy : Deployment

structure System where
  server : Server
  running : ℕ → Option Running
  lost : Set Lost := ∅

/-- What a step is: a write of another client, the start of call `i`, an exchange of call `i` after the
exchanges `h`, or the late arrival of an Update. -/
inductive System.Label where
  | write (key : ObjectKey)
  | start (i : ℕ)
  | exchange (i : ℕ) (h : List Exchange) (e : Exchange)
  | arrival (u : Lost)

/-- One step: another client writes, a call starts, call `i` makes its next exchange, the answer to
its Update is lost, or an Update with a lost answer arrives. -/
inductive System.Step (s : System) : System.Label → System → Prop where
  | put (d : Deployment) (fresh : s.server.Fresh d) :
      Step s (.write d.key) { s with server := s.server.put d fresh }
  | erase (key : ObjectKey) : Step s (.write key) { s with server := s.server.erase key }
  | start (i : ℕ) (req : ObjectKey) (free : s.running i = none) :
      Step s (.start i)
        { s with running := Function.update s.running i (some ⟨reconcile rt req, []⟩) }
  | exchange {i : ℕ} {o : Op} {k : o.Ans → Action (Result × Option ApiError)} {h : List Exchange}
      {x : o.Ans} {server : Server} (next : s.running i = some ⟨.call o k, h⟩)
      (answer : Answers s.server o x server) :
      Step s (.exchange i h ⟨o, x⟩)
        { s with
          server
          running := Function.update s.running i (some ⟨k x, h ++ [⟨o, x⟩]⟩) }
  | lose {i : ℕ} {d : Deployment} {k : Option ApiError → Action (Result × Option ApiError)}
      {h : List Exchange} (err : ApiError)
      (next : s.running i = some ⟨.call (.updateDeployment d) k, h⟩) :
      Step s (.exchange i h ⟨.updateDeployment d, some err⟩)
        { s with
          running := Function.update s.running i
            (some ⟨k (some err), h ++ [⟨.updateDeployment d, some err⟩]⟩)
          lost := insert ⟨h, d⟩ s.lost }
  | arrive {u : Lost} {v : ℕ} (sent : u ∈ s.lost) (takes : s.server.Takes u.deploy v) :
      Step s (.arrival u) { s with server := s.server.update u.deploy v takes }

/-- The systems that any steps lead to from a server without calls. -/
inductive System.Reachable : System → Prop where
  | init (server : Server) : Reachable { server, running := fun _ => none }
  | step {s s' : System} {l : System.Label} (reached : Reachable s) (step : s.Step rt l s') :
      Reachable s'

/-! ### No lost update -/

variable {rt} {s s' : System} {l : System.Label}

/-- The Deployments in a history are versions the server stored, under the keys they were read at. -/
def ReadFrom (past : Set Deployment) (h : List Exchange) : Prop :=
  ∀ key d, (⟨.getDeployment key, .ok d⟩ : Exchange) ∈ h → d ∈ past ∧ d.key = key

theorem ReadFrom.mono {past past' : Set Deployment} {h : List Exchange} (hh : ReadFrom past h)
    (hp : past ⊆ past') : ReadFrom past' h :=
  fun key d hmem => ⟨hp (hh key d hmem).1, (hh key d hmem).2⟩

variable (rt) in
/-- A history that kept to the contract and read versions that were stored. -/
structure Heard (past : Set Deployment) (h : List Exchange) : Prop where
  obeys : Prog.Obeys (Calls rt) h
  reads : ReadFrom past h

variable (rt) in
/-- What every call in progress satisfies: the rest of it has the contract of `reconcile`. -/
structure Running.Sound (past : Set Deployment) (r : Running) : Prop where
  heard : Heard rt past r.history
  ensures : r.rest.Ensures (Calls rt) AnyAnswer r.history fun _ h => Reported h

variable (rt) in
/-- What every lost Update satisfies: it is the decision of its call. -/
structure Lost.Sound (past : Set Deployment) (u : Lost) : Prop where
  heard : Heard rt past u.history
  decided : Decided rt u.history u.deploy

variable (rt) in
structure System.Sound (s : System) : Prop where
  running : ∀ i r, s.running i = some r → r.Sound rt s.server.past
  lost : ∀ u ∈ s.lost, u.Sound rt s.server.past

section Mono

variable {past past' : Set Deployment} (hp : past ⊆ past')
include hp

theorem Heard.mono {h : List Exchange} (hh : Heard rt past h) : Heard rt past' h :=
  ⟨hh.obeys, hh.reads.mono hp⟩

theorem Running.Sound.mono {r : Running} (hr : r.Sound rt past) : r.Sound rt past' :=
  ⟨hr.heard.mono hp, hr.ensures⟩

theorem Lost.Sound.mono {u : Lost} (hu : u.Sound rt past) : u.Sound rt past' :=
  ⟨hu.heard.mono hp, hu.decided⟩

end Mono

theorem sound_start (past : Set Deployment) (req : ObjectKey) :
    Running.Sound rt past ⟨reconcile rt req, []⟩ :=
  ⟨⟨Prog.obeys_nil, fun _ _ hmem => absurd hmem List.not_mem_nil⟩, reconcile_ensures rt req⟩

/-- The server never forgets a version. -/
theorem Answers.past_subset {server server' : Server} {o : Op} {x : o.Ans}
    (h : Answers server o x server') : server.past ⊆ server'.past := by
  cases h with
  | accepted => exact Set.subset_insert _ _
  | _ => exact subset_rfl

theorem Answers.readFrom {server server' : Server} {o : Op} {x : o.Ans} {h : List Exchange}
    (hx : Answers server o x server') (hh : ReadFrom server.past h) :
    ReadFrom server'.past (h ++ [⟨o, x⟩]) := by
  intro key d hmem
  rcases List.mem_append.mp hmem with hmem | hmem
  · exact hh.mono hx.past_subset key d hmem
  · cases List.mem_singleton.mp hmem
    cases hx with
    | read stored at_key => exact ⟨stored, at_key⟩

/-- A call in progress that is answered. -/
theorem Running.Sound.answered {server server' : Server} {o : Op}
    {k : o.Ans → Action (Result × Option ApiError)} {h : List Exchange} {x : o.Ans}
    (hr : Running.Sound rt server.past ⟨.call o k, h⟩) (hx : Answers server o x server') :
    Running.Sound rt server'.past ⟨k x, h ++ [⟨o, x⟩]⟩ := by
  obtain ⟨hheard, hcalls, hensures⟩ := hr
  exact ⟨⟨hheard.obeys.concat hcalls, hx.readFrom hheard.reads⟩, hensures x trivial⟩

/-- **Step**: every step keeps every call in progress and every lost Update sound. -/
theorem sound_step (h : s.Step rt l s') (hs : s.Sound rt) : s'.Sound rt := by
  have hkeep : ∀ server : Server, s.server.past ⊆ server.past → ∀ r₀ i₀,
      Running.Sound rt server.past r₀ → ∀ i r,
        Function.update s.running i₀ (some r₀) i = some r → r.Sound rt server.past := by
    intro server hp r₀ i₀ hr₀ i r hr
    by_cases hi : i = i₀
    · subst hi
      rw [Function.update_self, Option.some_inj] at hr
      exact hr ▸ hr₀
    · rw [Function.update_of_ne hi] at hr
      exact (hs.running i r hr).mono hp
  cases h with
  | put d fresh =>
    have hp := Set.subset_insert d s.server.past
    exact ⟨fun i r hr => (hs.running i r hr).mono hp, fun u hu => (hs.lost u hu).mono hp⟩
  | erase key => exact ⟨hs.running, hs.lost⟩
  | start i req free => exact ⟨hkeep s.server subset_rfl _ _ (sound_start _ req), hs.lost⟩
  | @exchange i o k h x server next answer =>
    have hp := answer.past_subset
    exact ⟨hkeep server hp _ _ ((hs.running i _ next).answered answer),
      fun u hu => (hs.lost u hu).mono hp⟩
  | @lose i d k h err next =>
    have hr := hs.running i _ next
    refine ⟨hkeep s.server subset_rfl _ _ (hr.answered (.rejected d err)), fun u hu => ?_⟩
    rcases hu with rfl | hu
    · exact ⟨hr.heard, hr.ensures.1⟩
    · exact hs.lost u hu
  | @arrive u v sent takes =>
    have hp : s.server.past ⊆ (s.server.update u.deploy v takes).past := Set.subset_insert _ _
    exact ⟨fun i r hr => (hs.running i r hr).mono hp, fun u hu => (hs.lost u hu).mono hp⟩

theorem sound_init (server : Server) : System.Sound rt { server, running := fun _ => none } :=
  ⟨fun _ _ hr => (by cases hr), fun _ hu => hu.elim⟩

theorem reachable_sound (h : s.Reachable rt) : s.Sound rt := by
  induction h with
  | init server => exact sound_init server
  | step _ step ih => exact sound_step step ih

theorem eq_of_singleton_append {α : Type} {a b : α} {l : List α} (h : [a] ++ l = [b]) : a = b :=
  (List.cons.inj h).1

/-- A call reads the target of its object. -/
theorem key_of_read {past : Set Deployment} {h : List Exchange} (hh : Heard rt past h)
    {wl : WorkloadLifecycle} {d : Deployment} (hw : (seen h).workloads = [wl])
    (hd : d ∈ (seen h).reads) : d ∈ past ∧ d.key = wl.deployKey := by
  obtain ⟨e, hmem, he⟩ := List.mem_filterMap.mp hd
  obtain ⟨key, rfl⟩ := deployRead?_eq_some he
  obtain ⟨h₀, h₁, hsplit⟩ := List.append_of_mem hmem
  obtain ⟨hpast, hkey⟩ := hh.reads _ _ hmem
  obtain ⟨wl', hwl', rfl⟩ := hh.obeys _ _ _ _ hsplit
  rw [hsplit, seen_append, hwl'] at hw
  exact ⟨hpast, eq_of_singleton_append hw ▸ hkey⟩

/-- A call that finds its count as it should be has submitted nothing. -/
theorem writes_nil_of_desired {past : Set Deployment} {h : List Exchange} (hh : Heard rt past h)
    {wl : WorkloadLifecycle} {answer : HttpAnswer} {metrics : Metrics} {d : Deployment}
    (hw : (seen h).workloads = [wl]) (ha : (seen h).answers = [answer])
    (hm : readAnswer rt.toPlatform answer = .ok metrics) (hd : (seen h).reads = [d])
    (hsame : computeDesiredReplicas d.count metrics.kvCacheUsagePercent wl.spec = d.count) :
    (seen h).writes = [] := by
  refine List.eq_nil_iff_forall_not_mem.mpr fun ⟨d', x⟩ hwrite => ?_
  obtain ⟨e, hmem, he⟩ := List.mem_filterMap.mp hwrite
  obtain rfl := deployWrite?_eq_some he
  obtain ⟨h₀, h₁, hsplit⟩ := List.append_of_mem hmem
  obtain ⟨wl', answer', metrics', e, hseen, hm', hne, -⟩ := hh.obeys _ _ _ _ hsplit
  rw [hsplit, seen_append, hseen] at hw ha hd
  obtain rfl := eq_of_singleton_append hw
  obtain rfl := eq_of_singleton_append ha
  obtain rfl := eq_of_singleton_append hd
  rw [hm'] at hm
  exact hne (Except.ok.inj hm ▸ hsame)

variable (rt) in
/-- The write of a call with the history `h` that takes the server from `server` to `server'`: the
stored version of the target with nothing changed but `spec.replicas` (and the resource version that
the server gives it), which is what the rule makes of the stored count with the usage and the spec of
the call; no other Deployment changes. -/
def Replaces (h : List Exchange) (server server' : Server) : Prop :=
  ∃ wl answer metrics stored v, (seen h).workloads = [wl] ∧ (seen h).answers = [answer] ∧
    readAnswer rt.toPlatform answer = .ok metrics ∧
    server.store.get wl.deployKey = some stored ∧
    ∀ key, server'.store.get key = if key = wl.deployKey then
      some { stored with
        replicas := some
          (computeDesiredReplicas stored.count metrics.kvCacheUsagePercent wl.spec)
        resourceVersion := v }
      else server.store.get key

/-- The version a call read under the stored resource version is the stored one. -/
theorem taken_replaces {server : Server} {h : List Exchange} (hh : Heard rt server.past h)
    {d' : Deployment} (hd : Decided rt h d') {v : ℕ} (takes : server.Takes d' v) :
    Replaces rt h server (server.update d' v takes) := by
  obtain ⟨wl, answer, metrics, d, hseen, hm, -, rfl⟩ := hd
  obtain ⟨stored, get, version⟩ := takes.stored
  obtain ⟨hpast, hkey⟩ := key_of_read (d := d) hh (by rw [hseen]) (by rw [hseen]; simp)
  have hstored : d = stored := server.unique _ hpast _ (server.current _ _ get)
    (server.store.keyed _ _ get).symm version
  subst hstored
  have hget : server.store.get wl.deployKey = some d := hkey ▸ get
  refine ⟨wl, answer, metrics, d, v, by rw [hseen], by rw [hseen], hm, hget, fun key => ?_⟩
  by_cases hk : key = wl.deployKey
  · rw [if_pos hk, hk, ← hkey]
    exact DeploymentStore.set_get_self ..
  · rw [if_neg hk]
    refine DeploymentStore.set_get_of_ne _ ?_
    rw [← hkey] at hk
    exact hk

/-- **No lost update.**  However calls and other clients interleave and whatever versions the calls
read: an accepted Update replaces the stored version of the target by itself with the desired count;
a rejected one leaves the server, and its call returns only after submitting a status with reason
ScaleFailed; a call whose desired count is the count it read submits no Deployment; and an Update that
arrives after its call got an error replaces the stored version in the same way. -/
theorem no_lost_update (hs : s.Reachable rt) :
    (∀ i h d s', s.Step rt (.exchange i h ⟨.updateDeployment d, none⟩) s' →
      ∃ r, s.running i = some r ∧ Replaces rt r.history s.server s'.server) ∧
    (∀ i h d err s', s.Step rt (.exchange i h ⟨.updateDeployment d, some err⟩) s' →
      s'.server = s.server) ∧
    (∀ i a h d err, s.running i = some ⟨.done a, h⟩ →
      (⟨.updateDeployment d, some err⟩ : Exchange) ∈ h → ∃ wl x,
        (⟨.updateStatus wl, x⟩ : Exchange) ∈ h ∧
          wl.status.lastTransitionReason = reasonScaleFailed) ∧
    (∀ i r wl answer metrics d, s.running i = some r → (seen r.history).workloads = [wl] →
      (seen r.history).answers = [answer] → readAnswer rt.toPlatform answer = .ok metrics →
      (seen r.history).reads = [d] →
      computeDesiredReplicas d.count metrics.kvCacheUsagePercent wl.spec = d.count →
      (seen r.history).writes = []) ∧
    ∀ u s', s.Step rt (.arrival u) s' → Replaces rt u.history s.server s'.server := by
  have hsound := reachable_sound hs
  refine ⟨?_, ?_, ?_, ?_, ?_⟩
  · intro i h d s' hstep
    cases hstep with
    | exchange next answer =>
      have hr := hsound.running i _ next
      cases answer with
      | accepted takes => exact ⟨_, next, taken_replaces hr.heard hr.ensures.1 takes⟩
  · intro i h d err s' hstep
    cases hstep with
    | exchange next answer =>
      cases answer with
      | rejected => rfl
    | lose => rfl
  · intro i a h d err hrun hmem
    exact (hsound.running i _ hrun).ensures d err (List.mem_filterMap.mpr ⟨_, hmem, rfl⟩)
  · intro i r wl answer metrics d hrun hw ha hm hd hsame
    exact writes_nil_of_desired (hsound.running i r hrun).heard hw ha hm hd hsame
  · intro u s' hstep
    cases hstep with
    | arrive sent takes =>
      have hu := hsound.lost u sent
      exact taken_replaces hu.heard hu.decided takes

/-! ### Two objects with one target -/

/-- The labels of the exchanges `es` of call `i` after `h`. -/
def System.Label.exchanges (i : ℕ) : List Exchange → List Exchange → List System.Label
  | _, [] => []
  | h, e :: es => .exchange i h e :: System.Label.exchanges i (h ++ [e]) es

variable (rt) in
/-- A call makes exchanges that leave the server. -/
theorem steps_of_leads {i : ℕ} {p p' : Action (Result × Option ApiError)} {es : List Exchange}
    (hp : Prog.Leads p es p') : ∀ {s : System} {h : List Exchange}, s.running i = some ⟨p, h⟩ →
      (∀ e ∈ es, Answers s.server e.1 e.2 s.server) →
      Steps (System.Step rt) s (System.Label.exchanges i h es)
        { s with running := Function.update s.running i (some ⟨p', h ++ es⟩) } := by
  induction hp with
  | nil p =>
    intro s h hrun _
    rw [List.append_nil, ← hrun, Function.update_eq_self]
    exact .nil
  | @cons o k x es p' rest ih =>
    intro s h hrun hes
    have hstep : s.Step rt _ _ := .exchange hrun (hes _ List.mem_cons_self)
    let after : System :=
      { s with running := Function.update s.running i (some ⟨k x, h ++ [⟨o, x⟩]⟩) }
    have hafter : after.running i = some ⟨k x, h ++ [⟨o, x⟩]⟩ := Function.update_self ..
    have hsteps := ih hafter fun e he => hes e (List.mem_cons_of_mem _ he)
    rw [Function.update_idem, List.append_assoc] at hsteps
    exact (Steps.single hstep).trans hsteps

/-- The reads of a call. -/
def readings (wl : WorkloadLifecycle) (answer : HttpAnswer) (d : Deployment) : List Exchange :=
  [⟨.getWorkload wl.key, .ok wl⟩, ⟨.httpGet wl.spec.metricsEndpoint, answer⟩,
    ⟨.getDeployment wl.deployKey, .ok d⟩]

/-- What a call submits that has read the usage and `d`. -/
def asked (wl : WorkloadLifecycle) (usage : Int32) (d : Deployment) : Deployment :=
  { d with replicas := some (computeDesiredReplicas d.count usage wl.spec) }

/-- The labels of a call up to its Update. -/
def readLabels (i : ℕ) (wl : WorkloadLifecycle) (answer : HttpAnswer) (d : Deployment) :
    List System.Label := .start i :: System.Label.exchanges i [] (readings wl answer d)

/-- A call for an object without a recorded failure reads and asks. -/
theorem leads_asked {wl : WorkloadLifecycle} {answer : HttpAnswer} {metrics : Metrics}
    {d : Deployment} (hm : readAnswer rt.toPlatform answer = .ok metrics)
    (hnew : wl.status.lastTransitionReason = "")
    (hne : computeDesiredReplicas d.count metrics.kvCacheUsagePercent wl.spec ≠ d.count) :
    ∃ k, Prog.Leads (reconcile rt wl.key) (readings wl answer d)
      (.call (.updateDeployment (asked wl metrics.kvCacheUsagePercent d)) k) := by
  have hquiet : "" ≠ reasonMetricsUnavailable ∧ "" ≠ reasonTargetDeploymentNotFound := by decide
  refine Prog.exists_leads_cons (Prog.exists_leads_cons ?_)
  simp only [Prog.bind, Prog.bind_eq, Prog.pure_bind, hm, hnew, recordEventIf, if_neg hquiet.1]
  refine Prog.exists_leads_cons ?_
  simp only [Prog.bind, Prog.bind_eq, Prog.pure_bind, if_neg hquiet.2, makeAdjustmentIfNeeded,
    if_neg hne]
  exact ⟨_, .nil _⟩

/-- So it does in a system that stores or stored `d`. -/
theorem steps_asked {s : System} {i : ℕ} {wl : WorkloadLifecycle} {answer : HttpAnswer}
    {metrics : Metrics} {d : Deployment} (free : s.running i = none)
    (hm : readAnswer rt.toPlatform answer = .ok metrics)
    (hnew : wl.status.lastTransitionReason = "")
    (hne : computeDesiredReplicas d.count metrics.kvCacheUsagePercent wl.spec ≠ d.count)
    (hpast : d ∈ s.server.past) (hkey : d.key = wl.deployKey) :
    ∃ k, Steps (System.Step rt) s (readLabels i wl answer d)
      { s with
        running := Function.update s.running i
          (some ⟨.call (.updateDeployment (asked wl metrics.kvCacheUsagePercent d)) k,
            readings wl answer d⟩) } := by
  obtain ⟨k, hk⟩ := leads_asked hm hnew hne
  have hstart : s.Step rt _ _ := .start i wl.key free
  let started : System :=
    { s with running := Function.update s.running i (some ⟨reconcile rt wl.key, []⟩) }
  have hrun : started.running i = some ⟨reconcile rt wl.key, []⟩ := Function.update_self ..
  have hanswers : ∀ e ∈ readings wl answer d, Answers s.server e.1 e.2 s.server := by
    simp only [readings, List.forall_mem_cons]
    exact ⟨.getWorkload _ _, .httpGet _ _, .read hpast hkey, nofun⟩
  have hreads := steps_of_leads rt hk hrun hanswers
  rw [Function.update_idem, List.nil_append] at hreads
  exact ⟨k, (Steps.single hstart).trans hreads⟩

/-- An object of the sample spec, and one with the same target and larger bounds. -/
def smaller : WorkloadLifecycle := (World.fresh .sample none).wl

def larger : WorkloadLifecycle :=
  { smaller with
    key := ⟨"default", "larger"⟩
    spec := { WorkloadLifecycleSpec.sample with minReplicas := 2, maxReplicas := 5 } }

/-- A version of their target. -/
def version (v : ℕ) (count : Int32) : Deployment := ⟨⟨"default", "mock-vllm"⟩, v, some count, []⟩

/-- A Deployment of somebody else. -/
def unrelated : Deployment := ⟨⟨"default", "unrelated"⟩, 1, some 1, []⟩

/-- 90 percent are used. -/
def ninety : HttpAnswer := (Tick.serving "vllm_kv_cache_usage_perc 0.9").metrics

def timeout : ApiError := { notFound := false, text := "timeout" }

def conflict : ApiError := { notFound := false, text := "conflict" }

/-- The first call asks for 3 replicas and gets no answer, the second has read the same version, and
another client writes. -/
def sharedLabels : List System.Label :=
  readLabels 0 smaller ninety (version 1 2) ++
    [.exchange 0 (readings smaller ninety (version 1 2))
      ⟨.updateDeployment (version 1 3), some timeout⟩] ++
    readLabels 1 larger ninety (version 1 2) ++ [.write unrelated.key]

/-- The Update without an answer. -/
def sharedLost : Lost := ⟨readings smaller ninety (version 1 2), version 1 3⟩

/-- A call for one of them reads `d` and asks for `d'`. -/
theorem exists_reads (s : System) (i : ℕ) (wl : WorkloadLifecycle) (d d' : Deployment)
    (free : s.running i = none) (hnew : wl.status.lastTransitionReason = "")
    (hne : computeDesiredReplicas d.count 90 wl.spec ≠ d.count) (hpast : d ∈ s.server.past)
    (hkey : d.key = wl.deployKey) (hd' : asked wl 90 d = d') :
    ∃ s' k, Steps (System.Step (.exact 0)) s (readLabels i wl ninety d) s' ∧
      s'.server = s.server ∧ s'.lost = s.lost ∧ (∀ j, j ≠ i → s'.running j = s.running j) ∧
      s'.running i = some ⟨.call (.updateDeployment d') k, readings wl ninety d⟩ := by
  have hm : readAnswer (Runtime.exact 0).toPlatform ninety = .ok { kvCacheUsagePercent := 90 } := by
    rw [ninety, readAnswer_ninety]
  obtain ⟨k, hk⟩ := steps_asked free hm hnew hne hpast hkey
  rw [hd'] at hk
  exact ⟨_, k, hk, rfl, rfl, fun j hj => Function.update_of_ne hj .., Function.update_self ..⟩

/-- The server of this run: another client writes, and the Updates of two calls are accepted. -/
def afterWrite : Server := (Server.single (version 1 2)).put unrelated <| by
  rintro e rfl hk
  exact absurd hk (by decide)

theorem takes_lost : afterWrite.Takes (version 1 3) 2 := by
  refine ⟨⟨version 1 2, rfl, rfl⟩, by decide, ?_⟩
  rintro e (rfl | rfl) hk
  · exact absurd hk (by decide)
  · decide

def afterArrival : Server := afterWrite.update (version 1 3) 2 takes_lost

theorem takes_last : afterArrival.Takes (version 2 4) 3 := by
  refine ⟨⟨version 2 3, rfl, rfl⟩, by decide, ?_⟩
  rintro e (rfl | rfl | rfl) hk
  · decide
  · exact absurd hk (by decide)
  · decide

/-- Then the lost Update arrives, the Update of the second call is one of an old version, and a third
call has its Update accepted. -/
theorem shared_run : ∃ s₁ s₂ s₃ s₄ s₅ : System,
    Steps (System.Step (.exact 0)) { server := .single (version 1 2), running := fun _ => none }
      sharedLabels s₁ ∧ s₁.server = afterWrite ∧
    s₁.Step (.exact 0) (.arrival sharedLost) s₂ ∧
    s₂.Step (.exact 0) (.exchange 1 (readings larger ninety (version 1 2))
      ⟨.updateDeployment (version 1 3), some conflict⟩) s₃ ∧
    Steps (System.Step (.exact 0)) s₃ (readLabels 2 larger ninety (version 2 3)) s₄ ∧
    s₄.Step (.exact 0) (.exchange 2 (readings larger ninety (version 2 3))
      ⟨.updateDeployment (version 2 4), none⟩) s₅ ∧
    s₅.server.store.get ⟨"default", "mock-vllm"⟩ = some (version 3 4) := by
  let s₀ : System := { server := .single (version 1 2), running := fun _ => none }
  -- the first call reads, and its Update is lost
  obtain ⟨a, k₀, hread₀, hserver, hlost, hothers, hask₀⟩ := exists_reads s₀ 0 smaller (version 1 2)
    (version 1 3) rfl rfl (by decide) rfl rfl rfl
  obtain ⟨b, hlose, hserver_b, hlost_b, hothers_b⟩ : ∃ b : System,
      a.Step (.exact 0) (.exchange 0 (readings smaller ninety (version 1 2))
        ⟨.updateDeployment (version 1 3), some timeout⟩) b ∧
      b.server = s₀.server ∧ b.lost = {sharedLost} ∧ ∀ j, j ≠ 0 → b.running j = none := by
    refine ⟨_, .lose timeout hask₀, hserver, ?_, fun j hj => ?_⟩
    · show insert sharedLost a.lost = {sharedLost}
      rw [hlost]
      exact insert_empty_eq _
    · exact (Function.update_of_ne hj ..).trans (hothers j hj)
  -- the second call reads the same version
  obtain ⟨c, k₁, hread₁, hserver_c, hlost_c, hothers_c, hask₁⟩ := exists_reads b 1 larger
    (version 1 2) (version 1 3) (hothers_b 1 (by decide)) rfl (by decide) (hserver_b ▸ rfl) rfl rfl
  -- another client writes, and the lost Update arrives
  let s₁ : System := { c with server := afterWrite }
  let s₂ : System := { c with server := afterArrival }
  have hwrite : c.Step (.exact 0) (.write unrelated.key) s₁ := by
    have hput : ∀ fresh, c.Step (.exact 0) (.write unrelated.key)
        { c with server := c.server.put unrelated fresh } := .put unrelated
    rw [hserver_c.trans hserver_b] at hput
    exact hput _
  have harrive : s₁.Step (.exact 0) (.arrival sharedLost) s₂ :=
    .arrive (by rw [hlost_c, hlost_b]; rfl) takes_lost
  -- the Update of the second call is refused
  let s₃ : System :=
    { s₂ with
      running := Function.update c.running 1 (some ⟨k₁ (some conflict),
        readings larger ninety (version 1 2) ++ [⟨.updateDeployment (version 1 3), some conflict⟩]⟩) }
  have hask : s₂.running 1 = some ⟨.call (.updateDeployment (version 1 3)) k₁,
      readings larger ninety (version 1 2)⟩ := hask₁
  have hrefuse : s₂.Step (.exact 0) _ s₃ := .exchange hask (.rejected _ conflict)
  -- the third call reads the new version, and its Update is accepted
  have hfree : s₃.running 2 = none :=
    (hothers_c 2 (by decide)).trans (hothers_b 2 (by decide))
  obtain ⟨s₄, k₂, hread₂, hserver₄, -, -, hask₂⟩ := exists_reads s₃ 2 larger (version 2 3)
    (version 2 4) hfree rfl (by decide) (.inl rfl) rfl rfl
  have takes : s₄.server.Takes (version 2 4) 3 := by
    rw [hserver₄]
    exact takes_last
  have haccept : s₄.Step (.exact 0) _ _ := .exchange hask₂ (.accepted takes)
  refine ⟨s₁, s₂, s₃, s₄, _, ?_, rfl, harrive, hrefuse, hread₂, haccept, ?_⟩
  · exact ((hread₀.concat hlose).trans hread₁).concat hwrite
  · exact DeploymentStore.set_get_self s₄.server.store (version 3 4)

/-- The systems on a run are reachable. -/
theorem reachable_steps {ls : List System.Label} (hs : s.Reachable rt)
    (h : Steps (System.Step rt) s ls s') : s'.Reachable rt :=
  h.invariant (fun _ _ _ hs hstep => .step hs hstep) hs

/-- The lost Update and the accepted one replace the version that was stored then, and the one of an
old version leaves the server. -/
theorem no_lost_update_sample : ∃ s₁ s₂ s₃ s₄ s₅ : System,
    s₁.Step (.exact 0) (.arrival sharedLost) s₂ ∧
      Replaces (.exact 0) sharedLost.history s₁.server s₂.server ∧
    s₂.Step (.exact 0) (.exchange 1 (readings larger ninety (version 1 2))
      ⟨.updateDeployment (version 1 3), some conflict⟩) s₃ ∧ s₃.server = s₂.server ∧
    s₄.Step (.exact 0) (.exchange 2 (readings larger ninety (version 2 3))
      ⟨.updateDeployment (version 2 4), none⟩) s₅ ∧
      ∃ r, s₄.running 2 = some r ∧ Replaces (.exact 0) r.history s₄.server s₅.server := by
  obtain ⟨s₁, s₂, s₃, s₄, s₅, hfirst, -, harrive, hrefuse, hread, haccept, -⟩ := shared_run
  have hs₁ := reachable_steps (.init _) hfirst
  have hs₂ : s₂.Reachable (.exact 0) := hs₁.step harrive
  have hs₄ := reachable_steps (hs₂.step hrefuse) hread
  refine ⟨s₁, s₂, s₃, s₄, s₅, harrive, ?_, hrefuse, ?_, haccept, ?_⟩
  · exact (no_lost_update hs₁).2.2.2.2 _ _ harrive
  · exact (no_lost_update hs₂).2.1 _ _ _ _ _ hrefuse
  · exact (no_lost_update hs₄).1 _ _ _ _ haccept

/-! ### Calls that run alone -/

/-- The server stores `store`, each Deployment in its newest version. -/
structure Server.Holds (server : Server) (store : DeploymentStore) : Prop where
  store_eq : server.store = store
  newest : ∀ k d, store.get k = some d → ∀ e ∈ server.past, e.key = k →
    e.resourceVersion ≤ d.resourceVersion

/-- A version newer than all others of its object can be stored. -/
theorem Server.Holds.put {server : Server} {store : DeploymentStore} {d : Deployment}
    (hh : server.Holds store)
    (hnew : ∀ e ∈ server.past, e.key = d.key → e.resourceVersion < d.resourceVersion) :
    (server.put d fun e he hk => (hnew e he hk).ne).Holds (store.set d) := by
  refine ⟨congrArg (DeploymentStore.set · d) hh.store_eq, fun k f hf e he hk => ?_⟩
  by_cases hkey : k = d.key
  · subst hkey
    rw [DeploymentStore.set_get_self, Option.some_inj] at hf
    rcases he with rfl | he
    · exact hf ▸ le_rfl
    · exact hf ▸ (hnew e he hk).le
  · rw [DeploymentStore.set_get_of_ne _ hkey] at hf
    rcases he with rfl | he
    · exact absurd hk.symm hkey
    · exact hh.newest k f hf e he hk

/-- The world of a call answers as the server may. -/
theorem answers_handle {server : Server} {w : World} (t : Tick) (o : Op)
    (hh : server.Holds w.deployments) :
    ∃ server', Answers server o (handle t o w).1 server' ∧
      server'.Holds (handle t o w).2.deployments := by
  cases o with
  | getDeployment key =>
    refine ⟨server, ?_, hh⟩
    show Answers server (.getDeployment key) (deployAnswer t w.deployments key) server
    cases hd : deployAnswer t w.deployments key with
    | error err => exact .readFailed key err
    | ok d =>
      obtain ⟨-, hget⟩ := deployAnswer_ok hd
      exact .read (server.current key d (hh.store_eq ▸ hget)) (w.deployments.keyed key d hget)
  | updateDeployment d =>
    simp only [handle]
    cases hu : updateAnswer t w.deployments d with
    | error err => exact ⟨server, .rejected d err, hh⟩
    | ok s =>
      obtain ⟨h0, stored, hget, hv, rfl⟩ := updateAnswer_ok hu
      have hnew : ∀ e ∈ server.past, e.key = d.key →
          e.resourceVersion < stored.resourceVersion + 1 :=
        fun e he hk => Nat.lt_succ_of_le (hh.newest _ _ hget e he hk)
      have takes : server.Takes d (stored.resourceVersion + 1) :=
        ⟨⟨stored, hh.store_eq ▸ hget, hv⟩, h0, fun e he hk => (hnew e he hk).ne⟩
      exact ⟨_, .accepted takes, hh.put hnew⟩
  | getWorkload key => exact ⟨server, .getWorkload key _, hh⟩
  | httpGet endpoint => exact ⟨server, .httpGet endpoint _, hh⟩
  | updateStatus wl => exact ⟨server, .updateStatus wl _, hh⟩
  | recordEvent event => exact ⟨server, .recordEvent event _, hh⟩
  | now stamp => exact ⟨server, .now stamp _, hh⟩

/-- **Calls that run alone are runs of the system**: a program that a call is about to run from a
world whose Deployments the server holds can run to its end, and every exchange of its trace is a
step on the way. -/
theorem reachable_run {t : Tick} {i : ℕ} (p : Action (Result × Option ApiError)) :
    ∀ {w : World} {h : List Exchange} {s : System}, s.Reachable rt →
      s.running i = some ⟨p, h⟩ → s.server.Holds w.deployments →
      (∃ s' : System, s'.Reachable rt ∧
        s'.running i = some ⟨.done (p.run (handle t) w).1, h ++ p.trace (handle t) w⟩ ∧
        s'.server.Holds (p.run (handle t) w).2.deployments) ∧
      ∀ e ∈ p.trace (handle t) w, ∃ (s₁ s₂ : System) (h : List Exchange), s₁.Reachable rt ∧
        s₁.Step rt (.exchange i h e) s₂ := by
  induction p with
  | done a =>
    intro w h s hs hrun hh
    refine ⟨⟨s, hs, ?_, hh⟩, fun e he => absurd he List.not_mem_nil⟩
    rw [hrun]
    exact congrArg (fun h => some (Running.mk _ h)) (List.append_nil h).symm
  | call o k ih =>
    intro w h s hs hrun hh
    obtain ⟨server, hanswer, hh'⟩ := answers_handle t o hh
    have hstep : s.Step rt _ _ := .exchange hrun hanswer
    obtain ⟨⟨s', hs', hrun', hhold⟩, hall⟩ := ih (handle t o w).1 (hs.step hstep)
      (Function.update_self ..) hh'
    refine ⟨⟨s', hs', ?_, hhold⟩, fun e he => ?_⟩
    · rw [hrun', List.append_assoc]
      rfl
    · rcases List.mem_cons.mp he with rfl | he
      · exact ⟨s, _, _, hs, hstep⟩
      · exact hall e he

variable (rt) in
/-- The exchanges of a call are steps that a system can reach, and so is its end. -/
theorem call_reachable {w : World} {t : Tick} {server : Server}
    (hh : server.Holds (w.disturb t).deployments) :
    (∃ s : System, s.Reachable rt ∧
      s.running 0 = some ⟨.done (call rt w t).result, (call rt w t).trace⟩ ∧
      s.server.Holds (call rt w t).after.deployments) ∧
    ∀ e ∈ (call rt w t).trace, ∃ (s₁ s₂ : System) (h : List Exchange), s₁.Reachable rt ∧
      s₁.Step rt (.exchange 0 h e) s₂ := by
  have hstart : System.Step rt { server, running := fun _ => none } _ _ :=
    .start 0 (w.disturb t).wl.key rfl
  exact reachable_run (t := t) _ (.step (.init server) hstart) (Function.update_self ..) hh

end InfraDemo.Operator
