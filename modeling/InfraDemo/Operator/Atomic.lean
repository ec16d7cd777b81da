import InfraDemo.Operator.Interleave
import InfraDemo.Operator.Pressure

/-!
# Atomic — interleaved calls change a count as if each ran alone

Calls of any number of controllers, for any number of objects, share a target.  Each reads it, fetches
its metrics and decides at different times, and an Update may arrive long after its call got an error;
but the stored count goes through the decisions one after the other, in the order in which the server
accepts the Updates (`scaling_refines`).  So whatever every single decision respects, the interleaved
calls respect (`shared_target_in_hull`).
-/

namespace InfraDemo.Operator

open InfraDemo.Go

/-! ### The atomic scaler -/

/-- What a change of the count is decided from. -/
structure Decision where
  spec : WorkloadLifecycleSpec
  usage : Int32

/-- The count that a decision makes of the stored one. -/
def Decision.apply (d : Decision) (count : Int32) : Int32 :=
  computeDesiredReplicas count d.usage d.spec

/-- One decision is taken on the stored count and carried out at once; a negative count is not
stored. -/
inductive Scales (P : WorkloadLifecycleSpec → Prop) : Option Int32 → Decision → Option Int32 → Prop
  | intro {count : Int32} {d : Decision} (spec : P d.spec) (stored : 0 ≤ (d.apply count).toInt) :
      Scales P (some count) d (some (d.apply count))

/-! ### The interleaved system -/

/-- The stored count of a Deployment. -/
def Server.count (server : Server) (key : ObjectKey) : Option Int32 :=
  (server.store.get key).map Deployment.count

/-- A read of an object with the target `key` gives a spec in `P`. -/
def Exchange.Within (P : WorkloadLifecycleSpec → Prop) (key : ObjectKey) : Exchange → Prop
  | ⟨.getWorkload _, .ok wl⟩ => wl.deployKey = key → P wl.spec
  | _ => True

/-- No other client writes the Deployment at `key`, and the specs that have it as their target are in
`P`. -/
def System.Label.Within (P : WorkloadLifecycleSpec → Prop) (key : ObjectKey) : System.Label → Prop
  | .write k => k ≠ key
  | .exchange _ _ e => e.Within P key
  | _ => True

/-- The step stores an Update of the Deployment at `key`. -/
def System.Label.Stores (key : ObjectKey) : System.Label → Prop
  | .exchange _ _ ⟨.updateDeployment d, none⟩ => d.key = key
  | .arrival u => u.deploy.key = key
  | _ => False

variable (rt : Runtime) (P : WorkloadLifecycleSpec → Prop) (key : ObjectKey)

/-- What a call has to decide from: the spec of the object it read, and the usage in the answer to its
metrics request. -/
def decision? (h : List Exchange) : Option Decision :=
  match (seen h).workloads, (seen h).answers with
  | [wl], [answer] =>
    match readAnswer rt.toPlatform answer with
    | .ok metrics => some ⟨wl.spec, metrics.kvCacheUsagePercent⟩
    | .error _ => none
  | _, _ => none

/-- The decision behind a step that stores an Update of the Deployment at `key`. -/
def System.Label.decision? : System.Label → Option Decision
  | .exchange _ h ⟨.updateDeployment d, none⟩ => if d.key = key then Operator.decision? rt h else none
  | .arrival u => if u.deploy.key = key then Operator.decision? rt u.history else none
  | _ => none

theorem decision?_arrival {u : Lost} (h : u.deploy.key = key) :
    (System.Label.arrival u).decision? rt key = decision? rt u.history := if_pos h

theorem decision?_stored {d : Deployment} (h : d.key = key) (i : ℕ) (hist : List Exchange) :
    (System.Label.exchange i hist ⟨.updateDeployment d, none⟩).decision? rt key = decision? rt hist :=
  if_pos h

/-- Calls and lost Updates keep to their contract, and the specs they are from are in `P`. -/
structure System.Fair (s : System) : Prop where
  sound : s.Sound rt
  running : ∀ i r, s.running i = some r → ∀ e ∈ r.history, e.Within P key
  lost : ∀ u ∈ s.lost, ∀ e ∈ u.history, e.Within P key

variable {rt P key} {s s' : System} {l : System.Label}

theorem fair_init (server : Server) : System.Fair rt P key { server, running := fun _ => none } :=
  ⟨sound_init server, fun _ _ hr => (by cases hr), fun _ hu => hu.elim⟩

theorem fair_step (h : s.Fair rt P key) (hs : s.Step rt l s') (hl : l.Within P key) :
    s'.Fair rt P key := by
  have hkeep : ∀ r₀ i₀, (∀ e ∈ r₀.history, e.Within P key) → ∀ i r,
      Function.update s.running i₀ (some r₀) i = some r → ∀ e ∈ r.history, e.Within P key := by
    intro r₀ i₀ hr₀ i r hr
    by_cases hi : i = i₀
    · subst hi
      rw [Function.update_self, Option.some_inj] at hr
      exact hr ▸ hr₀
    · rw [Function.update_of_ne hi] at hr
      exact h.running i r hr
  have hconcat : ∀ {i : ℕ} {r : Running} {e : Exchange}, s.running i = some r → e.Within P key →
      ∀ e' ∈ r.history ++ [e], e'.Within P key := by
    intro i r e hr he e' he'
    rcases List.mem_append.mp he' with he' | he'
    · exact h.running i r hr e' he'
    · exact List.mem_singleton.mp he' ▸ he
  refine ⟨sound_step hs h.sound, ?_, ?_⟩
  · cases hs with
    | put | erase | arrive => exact h.running
    | start i req free => exact hkeep _ i fun e he => absurd he List.not_mem_nil
    | exchange next answer => exact hkeep _ _ (hconcat next hl)
    | lose err next => exact hkeep _ _ (hconcat next hl)
  · cases hs with
    | lose err next =>
      rintro u (rfl | hu)
      · exact h.running _ _ next
      · exact h.lost u hu
    | _ => exact h.lost

theorem fair_steps {ls : List System.Label} (h : Steps (System.Step rt) s ls s') (hs : s.Fair rt P key)
    (hl : ∀ l ∈ ls, l.Within P key) : s'.Fair rt P key :=
  (h.forall_label (I := System.Fair rt P key) (A := System.Label.Within P key) (B := fun _ => True)
    (fun _ _ _ hs hl hstep => ⟨fair_step hs hstep hl, trivial⟩) hs hl).1

/-- The object that a call has seen was read in an exchange. -/
theorem spec_of_workloads {h : List Exchange} (hspecs : ∀ e ∈ h, e.Within P key)
    {wl : WorkloadLifecycle} (hw : wl ∈ (seen h).workloads) (hkey : wl.deployKey = key) :
    P wl.spec := by
  obtain ⟨e, he, hwl⟩ := List.mem_filterMap.mp hw
  have hin := hspecs e he
  unfold Exchange.workload? at hwl
  split at hwl
  · cases hwl
    exact hin hkey
  · cases hwl

/-- A call submits the target of its object. -/
theorem decided_key {past : Set Deployment} {h : List Exchange} (hh : Heard rt past h)
    {d' : Deployment} (hd : Decided rt h d') {wl : WorkloadLifecycle}
    (hw : (seen h).workloads = [wl]) : d'.key = wl.deployKey := by
  obtain ⟨wl', answer, metrics, d, hseen, -, -, rfl⟩ := hd
  exact (key_of_read (d := d) hh hw (by rw [hseen]; simp)).2

/-- An Update that the server takes is one decision on the stored count of its Deployment. -/
theorem taken_scales {server : Server} {h : List Exchange} (hh : Heard rt server.past h)
    (hspecs : ∀ e ∈ h, e.Within P key) {d' : Deployment} (hd : Decided rt h d') (hkey : d'.key = key)
    {v : ℕ} (takes : server.Takes d' v) : ∃ d, decision? rt h = some d ∧
      Scales P (server.count key) d ((server.update d' v takes).count key) := by
  obtain ⟨wl, answer, metrics, stored, v', hw, ha, hm, hget, hget'⟩ := taken_replaces hh hd takes
  have htarget : wl.deployKey = key := (decided_key hh hd hw).symm.trans hkey
  have hspec : P wl.spec := spec_of_workloads hspecs (by rw [hw]; simp) htarget
  refine ⟨⟨wl.spec, metrics.kvCacheUsagePercent⟩, ?_, ?_⟩
  · simp only [decision?, hw, ha, hm]
  · have hnew : ((server.update d' v takes).store.get key).map Deployment.count =
        some d'.count := by
      subst hkey
      exact congrArg (Option.map _) (DeploymentStore.set_get_self ..)
    have hrule := congrArg (Option.map Deployment.count) (hget' key)
    rw [hnew, if_pos htarget.symm] at hrule
    have hcount : d'.count = computeDesiredReplicas stored.count metrics.kvCacheUsagePercent wl.spec :=
      Option.some_inj.mp hrule
    rw [htarget] at hget
    unfold Server.count
    rw [hnew, hget, hcount]
    refine .intro hspec ?_
    have hge := takes.count
    rwa [hcount] at hge

/-- Nor does it change the count of another Deployment. -/
theorem taken_count {server : Server} {d' : Deployment} {v : ℕ} (takes : server.Takes d' v)
    (hkey : d'.key ≠ key) : (server.update d' v takes).count key = server.count key :=
  congrArg (Option.map _) (DeploymentStore.set_get_of_ne _ hkey.symm)

/-- What a step does to the count: it carries out the decision it stands for, and one that stands for
none leaves it. -/
structure CarriesOut (rt : Runtime) (P : WorkloadLifecycleSpec → Prop) (key : ObjectKey) (s : System)
    (l : System.Label) (s' : System) : Prop where
  scales : ∀ d, l.decision? rt key = some d → Scales P (s.server.count key) d (s'.server.count key)
  keeps : l.decision? rt key = none → s'.server.count key = s.server.count key
  decides : l.Stores key → ∃ d, l.decision? rt key = some d

theorem carriesOut_silent (hd : l.decision? rt key = none) (hstores : ¬ l.Stores key)
    (hcount : s'.server.count key = s.server.count key) : CarriesOut rt P key s l s' :=
  ⟨fun _ h => absurd (hd.symm.trans h) nofun, fun _ => hcount, fun h => absurd h hstores⟩

theorem carriesOut_decision {d : Decision} (hd : l.decision? rt key = some d)
    (h : Scales P (s.server.count key) d (s'.server.count key)) : CarriesOut rt P key s l s' :=
  ⟨fun _ h' => Option.some_inj.mp (hd.symm.trans h') ▸ h, fun h' => absurd (hd.symm.trans h') nofun,
    fun _ => ⟨d, hd⟩⟩

/-- **Step.** -/
theorem carriesOut_step (h : s.Fair rt P key) (hs : s.Step rt l s') (hl : l.Within P key) :
    CarriesOut rt P key s l s' := by
  cases hs with
  | put d fresh =>
    exact carriesOut_silent rfl id (congrArg (Option.map _) (DeploymentStore.set_get_of_ne _ hl.symm))
  | erase k =>
    exact carriesOut_silent rfl id (congrArg (Option.map _) (Function.update_of_ne hl.symm ..))
  | start => exact carriesOut_silent rfl id rfl
  | lose => exact carriesOut_silent rfl id rfl
  | @arrive u v sent takes =>
    by_cases hkey : u.deploy.key = key
    · have hu := h.sound.lost u sent
      obtain ⟨d, hd, hscales⟩ := taken_scales hu.heard (h.lost u sent) hu.decided hkey takes
      exact carriesOut_decision ((decision?_arrival rt key hkey).trans hd) hscales
    · exact carriesOut_silent (if_neg hkey) hkey (taken_count takes hkey)
  | @exchange i o k hist x server next answer =>
    cases answer with
    | @accepted d' v takes =>
      by_cases hkey : d'.key = key
      · have hr := h.sound.running i _ next
        obtain ⟨d, hd, hscales⟩ :=
          taken_scales hr.heard (h.running i _ next) hr.ensures.1 hkey takes
        exact carriesOut_decision ((decision?_stored rt key hkey i hist).trans hd) hscales
      · exact carriesOut_silent (if_neg hkey) hkey (taken_count takes hkey)
    | _ => exact carriesOut_silent rfl id rfl

/-- **Interleaved calls refine the atomic scaler**: from any state of a run to any later one the stored
count goes through the decisions of the Updates that the server stored in between, late ones included,
in their order, each taken on the count stored at that moment, whatever the calls had read. -/
theorem scaling_refines {server : Server} {ls₀ ls : List System.Label}
    (h₀ : Steps (System.Step rt) { server, running := fun _ => none } ls₀ s)
    (h : Steps (System.Step rt) s ls s') (hl : ∀ l ∈ ls₀ ++ ls, l.Within P key) :
    Steps (Scales P) (s.server.count key) (ls.filterMap (System.Label.decision? rt key))
        (s'.server.count key) ∧
      ∀ l ∈ ls, l.Stores key → ∃ d, l.decision? rt key = some d := by
  have hfair := fair_steps h₀ (fair_init server) fun l hmem => hl l (List.mem_append_left _ hmem)
  have hwithin : ∀ l ∈ ls, l.Within P key := fun l hmem => hl l (List.mem_append_right _ hmem)
  constructor
  · refine (h.simulate (I := System.Fair rt P key) (A := System.Label.Within P key)
      (f := fun s => s.server.count key) (System.Label.decision? rt key) ?_ hfair hwithin).2
    intro s l s' hs hl hstep
    have hcarries := carriesOut_step hs hstep hl
    exact ⟨fair_step hs hstep hl, hcarries.scales, hcarries.keeps⟩
  · refine (h.forall_label (I := System.Fair rt P key) (A := System.Label.Within P key) ?_ hfair
      hwithin).2
    intro s l s' hs hl hstep
    exact ⟨fair_step hs hstep hl, (carriesOut_step hs hstep hl).decides⟩

/-! ### The run of two objects -/

theorem decision?_readings (wl : WorkloadLifecycle) (d : Deployment) :
    decision? (.exact 0) (readings wl ninety d) = some ⟨wl.spec, 90⟩ := by
  have hm : readAnswer (Runtime.exact 0).toPlatform ninety = .ok { kvCacheUsagePercent := 90 } := by
    rw [ninety, readAnswer_ninety]
  have hseen : seen (readings wl ninety d) = ⟨[wl], [ninety], [d], []⟩ := rfl
  simp only [decision?, hseen, hm]

/-- A call up to its Update decides nothing, and is within what holds of its spec. -/
theorem filterMap_readLabels (i : ℕ) (wl : WorkloadLifecycle) (d : Deployment) :
    (readLabels i wl ninety d).filterMap (System.Label.decision? rt key) = [] := rfl

theorem within_readLabels {wl : WorkloadLifecycle} (hP : P wl.spec) (i : ℕ) (d : Deployment) :
    ∀ l ∈ readLabels i wl ninety d, l.Within P key := by
  simp only [readLabels, System.Label.exchanges, readings, List.forall_mem_cons]
  exact ⟨trivial, fun _ => hP, trivial, trivial, List.forall_mem_nil _⟩

/-- The rest of the run of two objects, from the state in which the first Update is lost. -/
def sharedRest : List System.Label :=
  .arrival sharedLost ::
    .exchange 1 (readings larger ninety (version 1 2))
      ⟨.updateDeployment (version 1 3), some conflict⟩ ::
    readLabels 2 larger ninety (version 2 3) ++
    [.exchange 2 (readings larger ninety (version 2 3)) ⟨.updateDeployment (version 2 4), none⟩]

theorem within_shared (h₁ : P smaller.spec) (h₂ : P larger.spec) :
    ∀ l ∈ sharedLabels ++ sharedRest, l.Within P ⟨"default", "mock-vllm"⟩ := by
  have hkey : unrelated.key ≠ ⟨"default", "mock-vllm"⟩ := by decide
  simp only [sharedLabels, sharedRest, List.forall_mem_append, List.forall_mem_cons]
  refine ⟨⟨⟨⟨within_readLabels h₁ 0 _, ?_⟩, within_readLabels h₂ 1 _⟩, ?_⟩,
    ⟨trivial, trivial, within_readLabels h₂ 2 _⟩, ?_⟩
  · exact ⟨trivial, List.forall_mem_nil _⟩
  · exact ⟨hkey, List.forall_mem_nil _⟩
  · exact ⟨trivial, List.forall_mem_nil _⟩

/-- The lost Update of the one object and the last Update of the other are decisions. -/
theorem decisions_sharedRest :
    sharedRest.filterMap (System.Label.decision? (.exact 0) ⟨"default", "mock-vllm"⟩) =
      [⟨smaller.spec, 90⟩, ⟨larger.spec, 90⟩] := by
  have hlost := (decision?_arrival (.exact 0) ⟨"default", "mock-vllm"⟩ (u := sharedLost) rfl).trans
    (decision?_readings smaller (version 1 2))
  have hlast := decision?_stored (.exact 0) ⟨"default", "mock-vllm"⟩ (d := version 2 4) rfl 2
    (readings larger ninety (version 2 3))
  rw [decision?_readings] at hlast
  rw [sharedRest, List.filterMap_append, List.filterMap_cons_some hlost,
    List.filterMap_cons_some hlast, List.filterMap_cons_none rfl, filterMap_readLabels]
  rfl

theorem exists_shared : ∃ s₁ s₅ : System,
    Steps (System.Step (.exact 0)) { server := .single (version 1 2), running := fun _ => none }
      sharedLabels s₁ ∧ Steps (System.Step (.exact 0)) s₁ sharedRest s₅ ∧
    s₁.server.count ⟨"default", "mock-vllm"⟩ = some 2 ∧
    s₅.server.count ⟨"default", "mock-vllm"⟩ = some 4 := by
  obtain ⟨s₁, s₂, s₃, s₄, s₅, hfirst, hserver, harrive, hrefuse, hread, haccept, hlast⟩ := shared_run
  refine ⟨s₁, s₅, hfirst, (((Steps.single harrive).concat hrefuse).trans hread).concat haccept, ?_,
    congrArg (Option.map _) hlast⟩
  rw [hserver]
  rfl

theorem scaling_refines_sample :
    Steps (Scales (fun spec => spec = smaller.spec ∨ spec = larger.spec)) (some 2)
      [⟨smaller.spec, 90⟩, ⟨larger.spec, 90⟩] (some 4) := by
  obtain ⟨s₁, s₅, hfirst, hrest, h₁, h₅⟩ := exists_shared
  have hruns := (scaling_refines hfirst hrest (within_shared (P := fun spec =>
    spec = smaller.spec ∨ spec = larger.spec) (.inl rfl) (.inr rfl))).1
  rwa [decisions_sharedRest, h₁, h₅] at hruns

/-! ### A target that is shared -/

/-- The bounds of the spec are in order and lie in `[lo, hi]`. -/
def WorkloadLifecycleSpec.BoundsWithin (lo hi : ℤ) (spec : WorkloadLifecycleSpec) : Prop :=
  lo ≤ spec.minReplicas.toInt ∧ spec.minReplicas ≤ spec.maxReplicas ∧ spec.maxReplicas.toInt ≤ hi

/-- The count, if there is one, is in `[lo, hi]`. -/
def CountWithin (lo hi : ℤ) (count : Option Int32) : Prop :=
  ∀ c, count = some c → lo ≤ c.toInt ∧ c.toInt ≤ hi

/-- A decision that wraps around is not stored: only a step up from the largest int32 does. -/
theorem scales_within {lo hi : ℤ} (hlo : 0 ≤ lo) {count count' : Option Int32} {d : Decision}
    (h : CountWithin lo hi count) (hd : Scales (WorkloadLifecycleSpec.BoundsWithin lo hi) count d
      count') : CountWithin lo hi count' := by
  obtain ⟨⟨hmin, hle, hmax⟩, hstored⟩ := hd
  next c =>
  obtain ⟨hlow, hhigh⟩ := h c rfl
  intro c' hc'
  obtain rfl : d.apply c = c' := Option.some_inj.mp hc'
  have hlt := c.toInt_lt
  have hwrap : d.spec.asks d.usage = .up → c.toInt ≠ 2 ^ 31 - 1 := by
    intro hup hc
    have hneg : (d.apply c).toInt = -2 ^ 31 := computeDesiredReplicas_wrap hup hc
    omega
  have happly : (d.apply c).toInt = _ :=
    computeDesiredReplicas_toInt (fun hup => by have := hwrap hup; omega) fun _ => by omega
  rw [happly]
  exact Hysteresis.clampStep_mem_of_subset (Int32.le_iff_toInt_le.mp hle) hmin hmax ⟨hlow, hhigh⟩ _

/-- **A shared target stays in the bounds of those that share it.**  However the calls for any objects
interleave, whatever they had read and however late their Updates arrive, the count stays in every
interval of non-negative numbers that has it at the start and that holds the bounds of every object
with this target. -/
theorem shared_target_in_hull {lo hi : ℤ} (hlo : 0 ≤ lo) {server : Server} {ls : List System.Label}
    (h : Steps (System.Step rt) { server, running := fun _ => none } ls s)
    (hl : ∀ l ∈ ls, l.Within (WorkloadLifecycleSpec.BoundsWithin lo hi) key)
    (hs : CountWithin lo hi (server.count key)) : CountWithin lo hi (s.server.count key) := by
  let I (s : System) : Prop := s.Fair rt (WorkloadLifecycleSpec.BoundsWithin lo hi) key ∧
    CountWithin lo hi (s.server.count key)
  refine (h.forall_label (I := I) (B := fun _ => True) ?_ ⟨fair_init server, hs⟩ hl).1.2
  rintro s l s' ⟨hfair, hcount⟩ hl hstep
  have hcarries := carriesOut_step hfair hstep hl
  refine ⟨⟨fair_step hfair hstep hl, ?_⟩, trivial⟩
  cases hd : l.decision? rt key with
  | none => rwa [hcarries.keeps hd]
  | some d => exact scales_within hlo hcount (hcarries.scales d hd)

/-- The bounds of the two objects are 1 to 3 and 2 to 5. -/
theorem shared_target_in_hull_sample : ∃ s : System,
    Steps (System.Step (.exact 0)) { server := .single (version 1 2), running := fun _ => none }
      (sharedLabels ++ sharedRest) s ∧
    s.server.count ⟨"default", "mock-vllm"⟩ = some 4 ∧
    CountWithin 1 5 (s.server.count ⟨"default", "mock-vllm"⟩) := by
  obtain ⟨s₁, s₅, hfirst, hrest, -, h₅⟩ := exists_shared
  have hrun := hfirst.trans hrest
  have hstart : CountWithin 1 5 ((Server.single (version 1 2)).count ⟨"default", "mock-vllm"⟩) := by
    intro c hc
    obtain rfl : 2 = c := Option.some_inj.mp hc
    exact ⟨by decide, by decide⟩
  have hwithin := within_shared (P := WorkloadLifecycleSpec.BoundsWithin 1 5)
    ⟨by decide, by decide, by decide⟩ ⟨by decide, by decide, by decide⟩
  exact ⟨s₅, hrun, h₅, shared_target_in_hull (by norm_num) hrun hwithin hstart⟩

end InfraDemo.Operator
