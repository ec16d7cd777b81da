import Mathlib.Data.Set.Function
import InfraDemo.Lib.Unwinding
import InfraDemo.Operator.Interleave

/-!
# Fleet — many WorkloadLifecycles under one controller

The calls of all objects share one API server, one HTTP client and one event recorder.  A `Fleet` is
what they share and, for each object, what is left of its call in progress with its exchanges so
far; a `Turn` lets one object make its next external call, under the answers of the outside.  Any
list of turns is a run, so the calls of different objects interleave exchange by exchange.

Every call only touches what belongs to its object (`reconcile_owns`).  Where the objects have
different targets, what an object sees of a run depends on its own turns and on nothing of the others
(`independence`).
-/

namespace InfraDemo.Operator

open InfraDemo.Go

variable (rt : Runtime)

/-! ### What is shared -/

/-- The API server and the event recorder. -/
structure Shared where
  workloads : ObjectKey → Option WorkloadLifecycle
  deployments : DeploymentStore
  events : List Event

/-- One exchange of one object's call.  The answers are those of a tick (its edits and writes are
not used); a read can also be given an older version of what it asks for. -/
structure Turn extends Tick where
  object : ObjectKey
  oldWorkload : Option WorkloadLifecycle := none
  oldDeployment : Option Deployment := none

/-- How the shared world answers the call `o` at a turn. -/
def respond (t : Turn) : Prog.Handler Op.Ans Shared
  | .getWorkload key, w =>
    (match t.getErr with
      | some err => .error err
      | none =>
        match t.oldWorkload <|> w.workloads key with
        | none => .error { notFound := true, text := t.refusal }
        | some wl => .ok wl, w)
  | .httpGet _, w => (t.metrics, w)
  | .getDeployment key, w =>
    (match t.deployErr, t.oldDeployment with
      | none, some deploy => .ok deploy
      | _, _ => deployAnswer t.toTick w.deployments key, w)
  | .updateDeployment deploy, w =>
    match updateAnswer t.toTick w.deployments deploy with
    | .error err => (some err, w)
    | .ok s => (none, { w with deployments := s })
  | .updateStatus wl, w =>
    match w.workloads wl.key with
    | none => (some { notFound := true, text := t.refusal }, w)
    | some stored =>
      (statusAnswer t.toTick stored wl.resourceVersion,
        { w with workloads :=
            Function.update w.workloads wl.key (some (storeStatus t.toTick stored wl)) })
  | .recordEvent event, w => ((), { w with events := w.events ++ [event] })
  | .now stamp, w => (t.clock stamp, w)

/-! ### Fleets -/

structure Fleet where
  shared : Shared
  running : ObjectKey → Running

/-- What is left of the object's call; after a call that has returned comes the next one. -/
def Fleet.current (f : Fleet) (o : ObjectKey) : Action (Result × Option ApiError) :=
  match (f.running o).rest with
  | .done _ => reconcile rt o
  | .call op k => .call op k

/-- The fleet after a turn. -/
def Fleet.advance (f : Fleet) (t : Turn) : Fleet :=
  match f.current rt t.object with
  | .done _ => f
  | .call op k =>
    { shared := (respond t op f.shared).2
      running := Function.update f.running t.object
        { rest := k (respond t op f.shared).1
          history := (f.running t.object).history ++ [⟨op, (respond t op f.shared).1⟩] } }

/-- What belongs to an object: the object itself with its status, its target Deployment, the events
about it, the rest of its call and its exchanges with their answers. -/
structure Own where
  workload : Option WorkloadLifecycle
  deployment : Option Deployment
  events : List Event
  running : Running

/-- The part of a fleet that belongs to `o`; `target` tells the target Deployment of each object. -/
def Fleet.own (target : ObjectKey → ObjectKey) (o : ObjectKey) (f : Fleet) : Own where
  workload := f.shared.workloads o
  deployment := f.shared.deployments.get (target o)
  events := f.shared.events.filter fun e => e.regarding = o
  running := f.running o

/-- Two shared worlds hold the same of what belongs to `o`. -/
structure Shared.Agree (target : ObjectKey → ObjectKey) (o : ObjectKey) (w w' : Shared) : Prop where
  workload : w.workloads o = w'.workloads o
  deployment : w.deployments.get (target o) = w'.deployments.get (target o)
  events : (w.events.filter fun e => e.regarding = o) = w'.events.filter fun e => e.regarding = o

theorem own_eq_iff {target : ObjectKey → ObjectKey} {o : ObjectKey} {f f' : Fleet} :
    f.own target o = f'.own target o ↔
      f.shared.Agree target o f'.shared ∧ f.running o = f'.running o := by
  constructor
  · intro h
    obtain ⟨hw, hd, he, hr⟩ := (Own.mk.injEq ..).mp h
    exact ⟨⟨hw, hd, he⟩, hr⟩
  · rintro ⟨⟨hw, hd, he⟩, hr⟩
    exact (Own.mk.injEq ..).mpr ⟨hw, hd, he, hr⟩

/-! ### The contract of `reconcile` -/

section Owns

variable (target : ObjectKey → ObjectKey) (o : ObjectKey)

/-- The calls on what belongs to `o`. -/
def Touches : Op → Prop
  | .getWorkload key => key = o
  | .httpGet _ => True
  | .getDeployment key => key = target o
  | .updateDeployment deploy => deploy.key = target o
  | .updateStatus wl => wl.key = o
  | .recordEvent event => event.regarding = o
  | .now _ => True

/-- The answers that are about what belongs to `o`. -/
def Concerns : (op : Op) → op.Ans → Prop
  | .getWorkload _, .ok wl => wl.key = o ∧ wl.deployKey = target o
  | .getDeployment _, .ok deploy => deploy.key = target o
  | _, _ => True

/-- The program only touches what belongs to `o`. -/
def Keeps (p : Action (Result × Option ApiError)) : Prop :=
  ∃ h, p.Ensures (fun _ => Touches target o) (fun _ => Concerns target o) h fun _ _ => True

variable {target o} {h : List Exchange} {wl : WorkloadLifecycle}

theorem owns_recordEventIf {cond : Prop} [Decidable cond] {event : Event}
    {Q : Unit → List Exchange → Prop} (he : event.regarding = o) (hQ : ∀ h', Q () h') :
    Prog.Ensures (fun _ => Touches target o) (fun _ => Concerns target o) (recordEventIf cond event)
      h Q := by
  unfold recordEventIf
  split_ifs
  · exact ⟨he, fun _ _ => hQ _⟩
  · exact hQ h

theorem owns_recordStatus {u : StatusUpdate} {Q : Unit → List Exchange → Prop} (hwl : wl.key = o)
    (hQ : ∀ h', Q () h') :
    Prog.Ensures (fun _ => Touches target o) (fun _ => Concerns target o) (recordStatus rt wl u)
      h Q := by
  have hscale : Prog.Ensures (fun _ => Touches target o) (fun _ => Concerns target o)
      (scaleTime wl u) h fun _ _ => True := by
    unfold scaleTime
    split_ifs
    · exact ⟨trivial, fun _ _ => trivial⟩
    · trivial
  unfold recordStatus
  simp only [Prog.ensures_bind, Prog.ensures_perform, Prog.ensures_pure]
  exact hscale.mono fun _ _ _ => ⟨trivial, fun _ _ => ⟨trivial, fun _ _ => ⟨hwl, fun _ _ => hQ _⟩⟩⟩

theorem owns_makeAdjustmentIfNeeded {d : Deployment} {current desired usage threshold : Int32}
    {Q : Option ApiError → List Exchange → Prop} (hwl : wl.key = o) (hd : d.key = target o)
    (hQ : ∀ err h', Q err h') :
    Prog.Ensures (fun _ => Touches target o) (fun _ => Concerns target o)
      (makeAdjustmentIfNeeded rt wl d current desired usage threshold) h Q := by
  unfold makeAdjustmentIfNeeded
  split_ifs
  · rw [Prog.ensures_bind]
    exact owns_recordStatus rt hwl fun _ => hQ _ _
  · rw [Prog.ensures_bind, Prog.ensures_perform]
    refine ⟨hd, fun x _ => ?_⟩
    cases x with
    | some err =>
      simp only [Prog.ensures_bind, Prog.ensures_pure]
      exact owns_recordEventIf hwl fun _ => owns_recordStatus rt hwl fun _ => hQ _ _
    | none =>
      simp only [Prog.ensures_bind, Prog.ensures_perform, Prog.ensures_pure]
      exact ⟨hwl, fun _ _ => owns_recordStatus rt hwl fun _ => hQ _ _⟩

/-- **A call only touches what belongs to its object**, as long as its answers are about that. -/
theorem reconcile_owns : Prog.Ensures (fun _ => Touches target o) (fun _ => Concerns target o)
    (reconcile rt o) h fun _ _ => True := by
  unfold reconcile
  rw [Prog.ensures_bind, Prog.ensures_perform]
  refine ⟨rfl, fun x hx => ?_⟩
  cases x with
  | error err => trivial
  | ok wl =>
    obtain ⟨hwl, htarget⟩ : wl.key = o ∧ wl.deployKey = target o := hx
    simp only [observeMetrics, Prog.ensures_bind, Prog.ensures_perform, Prog.ensures_pure]
    refine ⟨trivial, fun answer _ => ?_⟩
    cases readAnswer rt.toPlatform answer with
    | error err =>
      simp only [Prog.ensures_bind, Prog.ensures_pure]
      exact owns_recordEventIf hwl fun _ => owns_recordStatus rt hwl fun _ => trivial
    | ok metrics =>
      simp only [observeDeployment, Prog.ensures_bind, Prog.ensures_perform]
      refine owns_recordEventIf hwl fun _ => ⟨htarget, fun y hy => ?_⟩
      cases y with
      | error err =>
        simp only [Prog.ensures_bind, Prog.ensures_pure]
        exact owns_recordEventIf hwl fun _ => owns_recordStatus rt hwl fun _ => trivial
      | ok d =>
        simp only [Prog.ensures_bind, Prog.ensures_pure]
        exact owns_recordEventIf hwl fun _ =>
          owns_makeAdjustmentIfNeeded rt hwl hy fun _ _ => trivial

end Owns

/-! ### Turns -/

section Turns

variable (target : ObjectKey → ObjectKey) (objects : Set ObjectKey)

/-- The turn is one of an object of the fleet, and older versions are versions of what is read. -/
structure Turn.Of (t : Turn) : Prop where
  object : t.object ∈ objects
  oldWorkload : ∀ wl, t.oldWorkload = some wl → wl.key = t.object ∧ wl.deployKey = target t.object
  oldDeployment : ∀ d, t.oldDeployment = some d → d.key = target t.object

/-- The objects are stored under their keys with their targets, and each call keeps to its own. -/
structure Fleet.Scoped (f : Fleet) : Prop where
  workloads : ∀ o ∈ objects, ∀ wl, f.shared.workloads o = some wl →
    wl.key = o ∧ wl.deployKey = target o
  running : ∀ o ∈ objects, Keeps target o (f.running o).rest

/-- The objects are stored so, and no call is in progress. -/
structure Fleet.Idle (f : Fleet) : Prop where
  workloads : ∀ o ∈ objects, ∀ wl, f.shared.workloads o = some wl →
    wl.key = o ∧ wl.deployKey = target o
  running : ∀ o ∈ objects, ∃ a, (f.running o).rest = .done a

variable {target objects} {rt} {f f' : Fleet} {t : Turn} {o : ObjectKey}

theorem Fleet.Idle.scoped (hf : f.Idle target objects) : f.Scoped target objects := by
  refine ⟨hf.workloads, fun o ho => ⟨[], ?_⟩⟩
  obtain ⟨a, ha⟩ := hf.running o ho
  rw [ha]
  trivial

variable (rt) in
theorem keeps_current (hf : f.Scoped target objects) (ho : o ∈ objects) :
    Keeps target o (f.current rt o) := by
  have hrun := hf.running o ho
  unfold Fleet.current
  cases hp : (f.running o).rest with
  | done a => exact ⟨[], reconcile_owns rt⟩
  | call op k => rwa [hp] at hrun

/-! ### One exchange -/

/-- The answer to an Update depends on the stored Deployment of its key, and so does what is stored
under that key. -/
theorem updateAnswer_congr {u : Tick} {s s' : DeploymentStore} {d : Deployment}
    (h : s.get d.key = s'.get d.key) :
    (∃ err, updateAnswer u s d = .error err ∧ updateAnswer u s' d = .error err) ∨
      ∃ d', d'.key = d.key ∧ updateAnswer u s d = .ok (s.set d') ∧
        updateAnswer u s' d = .ok (s'.set d') := by
  unfold updateAnswer DeploymentStore.update
  rw [h]
  cases u.updateErr with
  | some err => exact .inl ⟨err, rfl, rfl⟩
  | none =>
    cases s'.get d.key with
    | none => exact .inl ⟨_, rfl, rfl⟩
    | some stored =>
      by_cases hr : d.resourceVersion ≠ stored.resourceVersion ∨ d.count < 0
      · simp only [if_pos hr]
        exact .inl ⟨_, rfl, rfl⟩
      · simp only [if_neg hr]
        exact .inr ⟨{ d with resourceVersion := stored.resourceVersion + 1 }, rfl, rfl, rfl⟩

/-- **Own exchanges**: what the object is answered, and what it has afterwards, is a matter of what
it had. -/
theorem respond_congr {op : Op} {w w' : Shared} (hop : Touches target o op)
    (h : w.Agree target o w') :
    (respond t op w).1 = (respond t op w').1 ∧
      (respond t op w).2.Agree target o (respond t op w').2 := by
  cases op with
  | getWorkload key =>
    obtain rfl : key = o := hop
    refine ⟨?_, h⟩
    simp only [respond, h.workload]
  | httpGet endpoint => exact ⟨rfl, h⟩
  | getDeployment key =>
    obtain rfl : key = target o := hop
    refine ⟨?_, h⟩
    simp only [respond, deployAnswer, h.deployment]
  | updateDeployment d =>
    have hd : d.key = target o := hop
    have hget : w.deployments.get d.key = w'.deployments.get d.key := hd ▸ h.deployment
    rcases updateAnswer_congr (u := t.toTick) hget with ⟨err, he, he'⟩ | ⟨d', hk, he, he'⟩
    · simp only [respond, he, he']
      exact ⟨trivial, h⟩
    · simp only [respond, he, he']
      refine ⟨trivial, h.workload, ?_, h.events⟩
      show (w.deployments.set d').get (target o) = (w'.deployments.set d').get (target o)
      rw [← hd, ← hk, DeploymentStore.set_get_self, DeploymentStore.set_get_self]
  | updateStatus wl =>
    obtain rfl : wl.key = o := hop
    simp only [respond]
    rw [h.workload]
    cases w'.workloads wl.key with
    | none => exact ⟨rfl, h⟩
    | some stored =>
      refine ⟨rfl, ?_, h.deployment, h.events⟩
      show Function.update w.workloads _ _ _ = Function.update w'.workloads _ _ _
      rw [Function.update_self, Function.update_self]
  | recordEvent e =>
    refine ⟨rfl, h.workload, h.deployment, ?_⟩
    show (w.events ++ [e]).filter _ = (w'.events ++ [e]).filter _
    rw [List.filter_append, List.filter_append, h.events]
  | now stamp => exact ⟨rfl, h⟩

/-- **Exchanges of others**: a call on what belongs to another object, with another target, leaves
what belongs to `o`. -/
theorem respond_other {op : Op} {w : Shared} {o' : ObjectKey} (hop : Touches target o' op)
    (ho : o ≠ o') (htarget : target o ≠ target o') : (respond t op w).2.Agree target o w := by
  cases op with
  | getWorkload key => exact ⟨rfl, rfl, rfl⟩
  | httpGet endpoint => exact ⟨rfl, rfl, rfl⟩
  | getDeployment key => exact ⟨rfl, rfl, rfl⟩
  | updateDeployment d =>
    have hd : d.key = target o' := hop
    simp only [respond]
    cases hu : updateAnswer t.toTick w.deployments d with
    | error err => exact ⟨rfl, rfl, rfl⟩
    | ok s =>
      obtain ⟨-, stored, -, -, rfl⟩ := updateAnswer_ok hu
      refine ⟨rfl, DeploymentStore.set_get_of_ne _ ?_, rfl⟩
      show target o ≠ d.key
      rw [hd]
      exact htarget
  | updateStatus wl =>
    have hwl : wl.key = o' := hop
    simp only [respond]
    cases w.workloads wl.key with
    | none => exact ⟨rfl, rfl, rfl⟩
    | some stored =>
      refine ⟨Function.update_of_ne ?_ .., rfl, rfl⟩
      rw [hwl]
      exact ho
  | recordEvent e =>
    have he : e.regarding = o' := hop
    refine ⟨rfl, rfl, ?_⟩
    have hne : ¬ e.regarding = o := fun h => ho (h.symm.trans he)
    show (w.events ++ [e]).filter _ = w.events.filter _
    rw [List.filter_append, List.filter_cons_of_neg (by simpa using hne), List.filter_nil,
      List.append_nil]
  | now stamp => exact ⟨rfl, rfl, rfl⟩

/-- The answers of the fleet are about what belongs to the object. -/
theorem respond_concerns {op : Op} {w : Shared} (ht : t.Of target objects)
    (hop : Touches target t.object op)
    (hw : ∀ wl, w.workloads t.object = some wl → wl.key = t.object ∧ wl.deployKey = target t.object) :
    Concerns target t.object op (respond t op w).1 := by
  cases op with
  | getWorkload key =>
    obtain rfl : key = t.object := hop
    simp only [respond]
    cases t.getErr with
    | some err => trivial
    | none =>
      cases hold : t.oldWorkload with
      | some wl => exact ht.oldWorkload wl hold
      | none =>
        cases hwl : w.workloads t.object with
        | none => trivial
        | some wl => exact hw wl hwl
  | getDeployment key =>
    obtain rfl : key = target t.object := hop
    simp only [respond]
    split
    · next deploy _ hold => exact ht.oldDeployment deploy hold
    · cases hd : deployAnswer t.toTick w.deployments (target t.object) with
      | error err => trivial
      | ok d => exact w.deployments.keyed _ _ (deployAnswer_ok hd).2
  | httpGet endpoint => trivial
  | updateDeployment d => trivial
  | updateStatus wl => trivial
  | recordEvent e => trivial
  | now stamp => trivial

/-- What is stored under a key stays an object of that key with its target. -/
theorem respond_workloads {op : Op} {w : Shared}
    (hw : ∀ wl, w.workloads o = some wl → wl.key = o ∧ wl.deployKey = target o) :
    ∀ wl, (respond t op w).2.workloads o = some wl → wl.key = o ∧ wl.deployKey = target o := by
  intro wl hwl
  cases op with
  | updateStatus submitted =>
    simp only [respond] at hwl
    cases hstored : w.workloads submitted.key with
    | none => exact hw wl (by simpa only [hstored] using hwl)
    | some stored =>
      simp only [hstored] at hwl
      by_cases hk : o = submitted.key
      · subst hk
        rw [Function.update_self, Option.some_inj] at hwl
        subst hwl
        obtain ⟨hspec, hkey, -⟩ := storeStatus_spec (t := t.toTick) stored submitted
        have hthis := hw stored hstored
        unfold WorkloadLifecycle.deployKey at hthis ⊢
        rw [hspec, hkey]
        exact hthis
      · rw [Function.update_of_ne hk] at hwl
        exact hw wl hwl
  | updateDeployment d =>
    simp only [respond] at hwl
    cases hu : updateAnswer t.toTick w.deployments d with
    | error err => exact hw wl (by simpa only [hu] using hwl)
    | ok s => exact hw wl (by simpa only [hu] using hwl)
  | getWorkload key => exact hw wl hwl
  | httpGet endpoint => exact hw wl hwl
  | getDeployment key => exact hw wl hwl
  | recordEvent e => exact hw wl hwl
  | now stamp => exact hw wl hwl

/-! ### One turn -/

theorem advance_scoped (ht : t.Of target objects) (hf : f.Scoped target objects) :
    (f.advance rt t).Scoped target objects := by
  obtain ⟨h, hens⟩ := keeps_current rt hf ht.object
  unfold Fleet.advance
  cases hp : f.current rt t.object with
  | done a => exact hf
  | call op k =>
    rw [hp] at hens
    obtain ⟨hop, hrest⟩ := hens
    refine ⟨fun o ho => respond_workloads (hf.workloads o ho), fun o ho => ?_⟩
    by_cases hto : o = t.object
    · subst hto
      simp only [Function.update_self]
      exact ⟨_, hrest _ (respond_concerns ht hop (hf.workloads _ ho))⟩
    · simp only [Function.update_of_ne hto]
      exact hf.running o ho

theorem advance_own (ht : t.Of target objects) (hf : f.Scoped target objects)
    (ho : t.object = o) (h : f.own target o = f'.own target o) :
    (f.advance rt t).own target o = (f'.advance rt t).own target o := by
  subst ho
  obtain ⟨hagree, hrun⟩ := own_eq_iff.mp h
  obtain ⟨_, hens⟩ := keeps_current rt hf ht.object
  have hcurrent : f'.current rt t.object = f.current rt t.object := by
    unfold Fleet.current
    rw [hrun]
  unfold Fleet.advance
  rw [hcurrent]
  cases hp : f.current rt t.object with
  | done a => exact h
  | call op k =>
    rw [hp] at hens
    obtain ⟨hanswer, hafter⟩ := respond_congr (t := t) hens.1 hagree
    refine own_eq_iff.mpr ⟨hafter, ?_⟩
    simp only [Function.update_self]
    rw [hanswer, hrun]

theorem advance_other (htarget : Set.InjOn target objects) (hoo : o ∈ objects)
    (ht : t.Of target objects) (hf : f.Scoped target objects) (ho : t.object ≠ o) :
    (f.advance rt t).own target o = f.own target o := by
  obtain ⟨_, hens⟩ := keeps_current rt hf ht.object
  unfold Fleet.advance
  cases hp : f.current rt t.object with
  | done a => rfl
  | call op k =>
    rw [hp] at hens
    have hne : target o ≠ target t.object := fun h => ho (htarget hoo ht.object h).symm
    refine own_eq_iff.mpr ⟨respond_other hens.1 (Ne.symm ho) hne, ?_⟩
    exact Function.update_of_ne (Ne.symm ho) ..

/-! ### Whole runs -/

variable (rt) in
theorem isolates (htarget : Set.InjOn target objects) (hoo : o ∈ objects) :
    Unwinding.Isolates (Fleet.advance rt) Turn.object (Fleet.own target) (Fleet.Scoped target objects)
      (Turn.Of target objects) o where
  keeps _ _ ht hf := advance_scoped ht hf
  other _ _ ht hf ho := advance_other htarget hoo ht hf ho
  own _ _ _ ht hf _ ho h := advance_own ht hf ho h

variable (rt) in
/-- **Independence.**  In every interleaving of the calls of objects with different targets, what an
object has after each of its turns is what it has when the turns of the others are left out, and what
it has under any others that share nothing but the outside of its own turns; and the turns of others
change nothing of it. -/
theorem independence {ts : List Turn} (htarget : Set.InjOn target objects) (hoo : o ∈ objects)
    (hf : f.Idle target objects) (hts : ∀ t ∈ ts, t.Of target objects) :
    Unwinding.history (Fleet.advance rt) Turn.object (Fleet.own target) o f ts =
        Unwinding.history (Fleet.advance rt) Turn.object (Fleet.own target) o f
          (Unwinding.inputsOf Turn.object o ts) ∧
      (∀ (f' : Fleet) (ts' : List Turn), f'.Idle target objects → (∀ t ∈ ts', t.Of target objects) →
        f.own target o = f'.own target o →
        Unwinding.inputsOf Turn.object o ts = Unwinding.inputsOf Turn.object o ts' →
        Unwinding.history (Fleet.advance rt) Turn.object (Fleet.own target) o f ts =
          Unwinding.history (Fleet.advance rt) Turn.object (Fleet.own target) o f' ts') ∧
      ∀ before others after, ts = before ++ others ++ after → (∀ t ∈ others, t.object ≠ o) →
        (Run.final (Fleet.advance rt) f (before ++ others)).own target o =
          (Run.final (Fleet.advance rt) f before).own target o := by
  have hiso := isolates rt htarget hoo
  refine ⟨?_, ?_, ?_⟩
  · exact Unwinding.history_filter hiso hf.scoped hf.scoped hts rfl
  · intro f' ts' hf' hts' hown hsame
    exact Unwinding.history_eq hiso hf.scoped hf'.scoped hts hts' hown hsame
  · intro before others after hsplit hothers
    subst hsplit
    have hbefore : (Run.final (Fleet.advance rt) f before).Scoped target objects :=
      Run.final_of_invariant hiso.keeps hf.scoped fun t ht => hts t (by simp [ht])
    rw [Run.final_append]
    exact Unwinding.view_final_of_others hiso hbefore (fun t ht => hts t (by simp [ht])) hothers

end Turns

/-! ### Two objects -/

def objectA : ObjectKey := { ns := "default", name := "a" }

def objectB : ObjectKey := { ns := "default", name := "b" }

/-- The target is named after the object. -/
def vllmOf (key : ObjectKey) : ObjectKey := { key with name := "vllm-" ++ key.name }

/-- Every key has a new WorkloadLifecycle; `a` has one replica and `b` three. -/
def Fleet.named : Fleet where
  shared :=
    { workloads := fun key => some
        { key, generation := 1, resourceVersion := 1, status := {}
          spec := { WorkloadLifecycleSpec.sample with targetDeployment := "vllm-" ++ key.name } }
      deployments := (DeploymentStore.empty.set
        { key := vllmOf objectA, resourceVersion := 1, replicas := some 1, rest := [] }).set
        { key := vllmOf objectB, resourceVersion := 1, replicas := some 3, rest := [] }
      events := [] }
  running _ := { rest := .done ({}, none), history := [] }

/-- A turn of `a` under 90%. -/
def turnOfA : Turn := { Tick.serving "vllm_kv_cache_usage_perc 0.9" with object := objectA }

/-- A turn of `b` under 10%. -/
def turnOfB : Turn := { Tick.serving "vllm_kv_cache_usage_perc 0.1" with object := objectB }

/-- A whole call of each object, exchange by exchange in turn. -/
def turnByTurn : List Turn := (List.replicate 9 [turnOfA, turnOfB]).flatten

theorem turnByTurn_of {t : Turn} (ht : t ∈ turnByTurn) : t.Of vllmOf {objectA, objectB} := by
  obtain ⟨ts, hts, ht⟩ := List.mem_flatten.mp ht
  obtain rfl := List.eq_of_mem_replicate hts
  rcases List.mem_pair.mp ht with rfl | rfl
  · exact ⟨.inl rfl, nofun, nofun⟩
  · exact ⟨.inr rfl, nofun, nofun⟩

theorem vllmOf_injOn : Set.InjOn vllmOf {objectA, objectB} := by
  rintro _ (rfl | rfl) _ (rfl | rfl) h
  · rfl
  · exact absurd h (by decide)
  · exact absurd h (by decide)
  · rfl

theorem named_idle : Fleet.named.Idle vllmOf {objectA, objectB} := by
  refine ⟨?_, fun o _ => ⟨_, rfl⟩⟩
  rintro o - wl hwl
  cases hwl
  exact ⟨rfl, rfl⟩

/-- Both scale and report it; `a` has after each of its turns what it has alone. -/
theorem independence_named :
    Unwinding.history (Fleet.advance (.exact 0)) Turn.object (Fleet.own vllmOf) objectA Fleet.named
        turnByTurn =
      Unwinding.history (Fleet.advance (.exact 0)) Turn.object (Fleet.own vllmOf) objectA Fleet.named
        (List.replicate 9 turnOfA) ∧
    ((Run.final (Fleet.advance (.exact 0)) Fleet.named turnByTurn).shared.events.map Event.reason =
      [reasonScaledUp, reasonScaledDown]) ∧
    ((Run.final (Fleet.advance (.exact 0)) Fleet.named turnByTurn).shared.deployments.get
      (vllmOf objectA)).map Deployment.count = some 2 ∧
    ((Run.final (Fleet.advance (.exact 0)) Fleet.named turnByTurn).shared.workloads objectA).map
      (fun wl => wl.status.lastTransitionReason) = some reasonScaledUp := by
  have hown : Unwinding.inputsOf Turn.object objectA turnByTurn = List.replicate 9 turnOfA := rfl
  refine ⟨?_, by decide +kernel, by decide +kernel, by decide +kernel⟩
  rw [← hown]
  exact (independence (.exact 0) vllmOf_injOn (.inl rfl) named_idle fun t ht => turnByTurn_of ht).1

end InfraDemo.Operator
