import InfraDemo.Lib.Setpoint
import InfraDemo.Operator.Pressure
import InfraDemo.Operator.Stub

/-!
# LocalTest — the stub, the controller and the cluster together

In the local test the metrics endpoint of the WorkloadLifecycle is the stub, and people post to `/set`
between the calls of `reconcile`.  A run of the three (`Bench`) goes as a counter that follows a
setting (`Lib.Setpoint`): the text of `/metrics`, the HTTP answer, the parser, the status and the
Deployment's versions drop out (`follows`).  So whatever was set before, enough calls without errors
take the count to where the last setting asks (`reaches_goal`).
-/

namespace InfraDemo.Operator

open InfraDemo.Go InfraDemo.Hysteresis

/-- The stub, and the cluster with its one WorkloadLifecycle. -/
structure Bench where
  stub : StubState
  world : World

/-- A request to `/set`, or a call of `reconcile` under a tick whose metrics the stub serves. -/
inductive Bench.Input where
  | set (data : SetData)
  | call (t : Tick)

/-- The tick with the stub's answer to `GET /metrics`. -/
def Tick.served (t : Tick) (repr : Float64 → List Char) (stub : StubState) : Tick :=
  { t with metrics := .response 200 (.ok (Operator.metrics repr stub)) }

namespace Bench

section

variable (rt : Runtime) (repr : Float64 → List Char)

def step (b : Bench) : Input → Bench
  | .set data => { b with stub := (setMetrics b.stub data).1 }
  | .call t => { b with world := next rt b.world (t.served repr b.stub) }

end

variable {rt : Runtime} {repr : Float64 → List Char} {stub : StubState} {t : Tick} {b : Bench}

/-! ### The setting -/

/-- The usage is a float that `repr` prints and `ParseFloat` reads back. -/
def Readable (P : Platform) (repr : Float64 → List Char) (stub : StubState) : Prop :=
  Shown P repr stub.kvCacheUsagePerc

/-- What the stub's numbers ask for; `Atoi` has to hold the number of requests. -/
def asks (P : Platform) (spec : WorkloadLifecycleSpec) (stub : StubState) : Move :=
  if -2 ^ 63 ≤ stub.numRequestsWaiting ∧ stub.numRequestsWaiting < 2 ^ 63 then
    spec.asks (usagePercent P stub.kvCacheUsagePerc)
  else .hold

instance : DecidablePred Tick.Smooth := fun t =>
  decidable_of_iff (t.getErr = none ∧ t.deployErr = none ∧ t.updateErr = none)
    ⟨fun ⟨hget, hdeploy, hupdate⟩ => ⟨hget, hdeploy, hupdate⟩,
      fun h => ⟨h.get, h.deploy, h.update⟩⟩

/-- What an input is to a counter that follows a setting. -/
def Input.abs : Input → Setpoint.Input StubState
  | .set data => .set fun stub => (setMetrics stub data).1
  | .call t => if t.Smooth then .poll else .pass

/-- A usage that is set is a float that is read back; nobody else writes the spec or the target. -/
def Input.Calm (P : Platform) (repr : Float64 → List Char) (key : ObjectKey) : Input → Prop
  | .set data => ∀ v, data.kv = some (.ok v) → Shown P repr v
  | .call t => t.Undisturbed key

theorem readable_set {P : Platform} (h : Readable P repr stub) {data : SetData}
    (hdata : ∀ v, data.kv = some (.ok v) → Shown P repr v) :
    Readable P repr (setMetrics stub data).1 := by
  -- the second assignment leaves the usage
  have hrequests : ∀ s s', Readable P repr s → setRequests s data.requests = .ok s' →
      Readable P repr s' := by
    intro s s' hread hs
    rcases hreq : data.requests with _ | _ | n <;> rw [hreq] at hs <;> cases hs <;> exact hread
  unfold setMetrics
  rcases hkv : data.kv with _ | err | v
  · simp only [setKv]
    cases hs : setRequests stub data.requests with
    | error err => exact h
    | ok s' => exact hrequests _ _ h hs
  · exact h
  · have hset : Readable P repr { stub with kvCacheUsagePerc := v } := hdata v hkv
    simp only [setKv]
    cases hs : setRequests { stub with kvCacheUsagePerc := v } data.requests with
    | error err => exact hset
    | ok s' => exact hrequests _ _ hset hs

/-! ### Simulation -/

/-- The bench goes as the counter that follows the setting.  At the largest int32 the count can only
be where `MaxReplicas` is that, too. -/
structure Follows (P : Platform) (repr : Float64 → List Char) (spec : WorkloadLifecycleSpec)
    (key : ObjectKey) (b : Bench) (s : Setpoint.State StubState ℤ) : Prop where
  spec_eq : b.world.wl.spec = spec
  key_eq : b.world.wl.deployKey = key
  setting : s.setting = b.stub
  readable : Readable P repr b.stub
  counter : ∃ d, b.world.target = some d ∧ d.count.toInt = s.counter
  nonneg : 0 ≤ s.counter
  top : s.counter < 2 ^ 31 - 1 ∨ spec.maxReplicas.toInt = 2 ^ 31 - 1

/-- What a call reads from the stub: its numbers, or an error where `Atoi` cannot hold the second. -/
theorem readAnswer_served (h : Readable rt.toPlatform repr stub) (t : Tick) :
    readAnswer rt.toPlatform (t.served repr stub).metrics =
        .ok ⟨usagePercent rt.toPlatform stub.kvCacheUsagePerc, Int32.ofInt stub.numRequestsWaiting⟩ ∧
      (∀ spec, asks rt.toPlatform spec stub =
        spec.asks (usagePercent rt.toPlatform stub.kvCacheUsagePerc)) ∨
    (∃ err, readAnswer rt.toPlatform (t.served repr stub).metrics = .error err) ∧
      ∀ spec, asks rt.toPlatform spec stub = .hold := by
  have hbody : readAnswer rt.toPlatform (t.served repr stub).metrics =
      parsePrometheusMetrics rt.toPlatform (metrics repr stub) := rfl
  rw [hbody, parse_metrics h, atoi_toString]
  by_cases hfit : -2 ^ 63 ≤ stub.numRequestsWaiting ∧ stub.numRequestsWaiting < 2 ^ 63
  · rw [if_pos hfit]
    exact .inl ⟨rfl, fun spec => if_pos hfit⟩
  · rw [if_neg hfit]
    exact .inr ⟨⟨_, rfl⟩, fun spec => if_neg hfit⟩

section Follows

variable {spec : WorkloadLifecycleSpec} {key : ObjectKey} {s : Setpoint.State StubState ℤ}

theorem served_undisturbed (ht : t.Undisturbed key) : (t.served repr stub).Undisturbed key :=
  ⟨ht.edits, ht.midEdits, ht.writes⟩

/-- An error on the way leaves the count. -/
theorem follows_failing (ht : t.Undisturbed key) (h : Follows rt.toPlatform repr spec key b s)
    (hf : (t.served repr b.stub).Failing rt) :
    Follows rt.toPlatform repr spec key (b.step rt repr (.call t)) s := by
  obtain ⟨rfl, rfl, hset, hread, ⟨d, hd, hcount⟩, h0, htop⟩ := h
  have hu : (t.served repr b.stub).Undisturbed b.world.wl.deployKey := served_undisturbed ht
  exact ⟨(next_spec rt b.world hu).1, next_deployKey rt b.world hu, hset, hread,
    ⟨d, failing_next hu hf hd, hcount⟩, h0, htop⟩

/-- The API server refuses a negative count. -/
theorem refused_next {w : World} (ht : t.Undisturbed w.wl.deployKey) {m : Metrics} {d : Deployment}
    (hm : readAnswer rt.toPlatform t.metrics = .ok m) (hd : w.target = some d)
    (hneg : (desiredOf w m d).toInt < 0) : (next rt w t).target = some d := by
  have hd' : (w.disturb t).target = some d := by rwa [disturb_target ht]
  have hkey : (next rt w t).wl.deployKey = (w.disturb t).wl.deployKey := by
    rw [next_deployKey rt w ht, disturb_wl ht]
  rw [World.target, hkey]
  rcases call_target rt hd' with hsame | ⟨m', s, hx, h0, -⟩
  · exact hsame
  · have hexits := exits_callExit rt w t
    rw [hx] at hexits
    cases hexits with
    | scaled get fetch read change update =>
      obtain rfl : m' = m := Except.ok.inj (fetch.symm.trans hm)
      rw [desiredOf_disturb ht] at h0
      omega

/-- Without errors the count takes the step that the stub's numbers ask for. -/
theorem follows_smooth (hmin : 1 ≤ spec.minReplicas) (hle : spec.minReplicas ≤ spec.maxReplicas)
    (ht : t.Undisturbed key) (hsmooth : t.Smooth) (h : Follows rt.toPlatform repr spec key b s) :
    Follows rt.toPlatform repr spec key (b.step rt repr (.call t))
      (Setpoint.step spec.minReplicas.toInt spec.maxReplicas.toInt (asks rt.toPlatform spec) s
        .poll) := by
  rw [Int32.le_iff_toInt_le] at hmin hle
  rw [Int32.toInt_one] at hmin
  rcases readAnswer_served h.readable t with ⟨hanswer, hasks⟩ | ⟨⟨err, hanswer⟩, hasks⟩
  · obtain ⟨rfl, rfl, hset, hread, ⟨d, hd, hcount⟩, h0, htop⟩ := h
    have hu : (t.served repr b.stub).Undisturbed b.world.wl.deployKey := served_undisturbed ht
    let m : Metrics := ⟨usagePercent rt.toPlatform b.stub.kvCacheUsagePerc,
      Int32.ofInt b.stub.numRequestsWaiting⟩
    let c := clampStep b.world.wl.spec.minReplicas.toInt b.world.wl.spec.maxReplicas.toInt s.counter
      (asks rt.toPlatform b.world.wl.spec s.setting)
    have hmove : asks rt.toPlatform b.world.wl.spec s.setting =
        b.world.wl.spec.asks m.kvCacheUsagePercent := by rw [hset, hasks]
    have hlt := d.count.toInt_lt
    by_cases hwrap : b.world.wl.spec.asks m.kvCacheUsagePercent = .up ∧ d.count.toInt = 2 ^ 31 - 1
    · -- the sum wraps, its Update is refused, and the count is at `MaxReplicas`
      have hdes : (desiredOf b.world m d).toInt = -2 ^ 31 :=
        computeDesiredReplicas_wrap hwrap.1 hwrap.2
      have hc : c = s.counter := by
        show clampStep _ _ _ _ = _
        rw [hmove, hwrap.1]
        simp only [clampStep, Order.succ_eq_add_one]
        omega
      exact ⟨(next_spec rt b.world hu).1, next_deployKey rt b.world hu, hset, hread,
        ⟨d, refused_next hu hanswer hd (by rw [hdes]; omega), hcount.trans hc.symm⟩,
        h0.trans_eq hc.symm, by rw [← hc] at htop; exact htop⟩
    · have hdes : (desiredOf b.world m d).toInt = c := by
        have hstep : (desiredOf b.world m d).toInt = _ :=
          computeDesiredReplicas_toInt (fun hup => by have := not_and.mp hwrap hup; omega)
            fun _ => by omega
        rwa [← hmove, hcount] at hstep
      have hc0 : 0 ≤ c := le_clampStep (by omega) (by omega) h0 _
      have hctop : c < 2 ^ 31 - 1 ∨ b.world.wl.spec.maxReplicas.toInt = 2 ^ 31 - 1 := by
        have hmax := b.world.wl.spec.maxReplicas.toInt_lt
        rcases htop with hlow | hhigh
        · by_cases hhigh : b.world.wl.spec.maxReplicas.toInt = 2 ^ 31 - 1
          · exact .inr hhigh
          · have hclt : c ≤ 2 ^ 31 - 2 := clampStep_le (by omega) (by omega) (by omega) _
            exact .inl (by omega)
        · exact .inr hhigh
      obtain ⟨-, -, d', hd', hcount'⟩ := smooth_step hu ⟨hsmooth.get, hsmooth.deploy,
        hsmooth.update⟩ hanswer hd (by rwa [Int32.le_iff_toInt_le, Int32.toInt_zero, hdes])
      exact ⟨(next_spec rt b.world hu).1, next_deployKey rt b.world hu, hset, hread,
        ⟨d', hd', by rw [hcount', hdes]; rfl⟩, hc0, hctop⟩
  · have hsame : Setpoint.step spec.minReplicas.toInt spec.maxReplicas.toInt
        (asks rt.toPlatform spec) s .poll = s := by
      have hhold : asks rt.toPlatform spec s.setting = .hold := by
        rw [h.setting]
        exact hasks spec
      simp only [Setpoint.step, hhold]
      rfl
    rw [hsame]
    exact follows_failing ht h (.inr (.inl ⟨err, hanswer⟩))

/-- **Step**: the bench and the counter take each input alike. -/
theorem follows_step (hmin : 1 ≤ spec.minReplicas) (hle : spec.minReplicas ≤ spec.maxReplicas)
    (i : Input) (hi : i.Calm rt.toPlatform repr key)
    (h : Follows rt.toPlatform repr spec key b s) :
    Follows rt.toPlatform repr spec key (b.step rt repr i)
      (Setpoint.step spec.minReplicas.toInt spec.maxReplicas.toInt (asks rt.toPlatform spec) s
        i.abs) := by
  cases i with
  | set data =>
    refine ⟨h.spec_eq, h.key_eq, ?_, readable_set h.readable hi, h.counter, h.nonneg, h.top⟩
    show (setMetrics s.setting data).1 = (setMetrics b.stub data).1
    rw [h.setting]
  | call t =>
    by_cases hsmooth : t.Smooth
    · rw [show Input.abs (.call t) = .poll from if_pos hsmooth]
      exact follows_smooth hmin hle hi hsmooth h
    · rw [show Input.abs (.call t) = .pass from if_neg hsmooth]
      refine follows_failing hi h ?_
      by_cases hget : t.getErr = none
      · by_cases hdeploy : t.deployErr = none
        · exact .inr (.inr (.inr fun hupdate => hsmooth ⟨hget, hdeploy, hupdate⟩))
        · exact .inr (.inr (.inl hdeploy))
      · exact .inl hget

end Follows

/-! ### Runs -/

/-- **The bench is a counter that follows a setting.**  However requests to `/set` and calls of
`reconcile` alternate, the numbers of the stub and the count of the target are those of the counter.
Where the count starts at the largest int32, so has `MaxReplicas` to be. -/
theorem follows {is : List Input} {d : Deployment} (hmin : 1 ≤ b.world.wl.spec.minReplicas)
    (hle : b.world.wl.spec.minReplicas ≤ b.world.wl.spec.maxReplicas)
    (hread : Readable rt.toPlatform repr b.stub) (hd : b.world.target = some d)
    (h0 : 0 ≤ d.count.toInt)
    (htop : d.count.toInt < 2 ^ 31 - 1 ∨ b.world.wl.spec.maxReplicas.toInt = 2 ^ 31 - 1)
    (his : ∀ i ∈ is, i.Calm rt.toPlatform repr b.world.wl.deployKey) :
    ∃ d', (Run.final (step rt repr) b is).world.target = some d' ∧
      Run.final (Setpoint.step b.world.wl.spec.minReplicas.toInt
          b.world.wl.spec.maxReplicas.toInt (asks rt.toPlatform b.world.wl.spec))
        ⟨b.stub, d.count.toInt⟩ (is.map Input.abs) =
          ⟨(Run.final (step rt repr) b is).stub, d'.count.toInt⟩ := by
  have hstart : Follows rt.toPlatform repr b.world.wl.spec b.world.wl.deployKey b
      ⟨b.stub, d.count.toInt⟩ := ⟨rfl, rfl, rfl, hread, ⟨d, hd, rfl⟩, h0, htop⟩
  have hrun := Run.final_sim (fun _ _ i hi h => follows_step hmin hle i hi h) hstart his
  obtain ⟨d', hd', hcount⟩ := hrun.counter
  refine ⟨d', hd', ?_⟩
  rw [← hrun.setting, hcount]

/-- The calls without errors among some ticks. -/
def smoothCalls (ts : List Tick) : ℕ := ts.countP fun t => t.Smooth

theorem steady_calls (asks : StubState → Move) (a : StubState) (ts : List Tick) :
    Setpoint.Steady asks (asks a) a (ts.map fun t => Input.abs (.call t)) := by
  induction ts with
  | nil => rfl
  | cons t ts ih =>
    refine ⟨rfl, ?_⟩
    have hchange : (Input.abs (.call t)).change a = a := by
      show (if t.Smooth then (Setpoint.Input.poll : Setpoint.Input StubState) else .pass).change a = a
      split_ifs <;> rfl
    rw [hchange]
    exact ih

theorem countP_isPoll (ts : List Tick) :
    (ts.map fun t => Input.abs (.call t)).countP Setpoint.Input.isPoll = smoothCalls ts := by
  rw [List.countP_map]
  refine List.countP_congr fun t _ => ?_
  show (if t.Smooth then (Setpoint.Input.poll : Setpoint.Input StubState) else .pass).isPoll = true ↔ _
  split_ifs with h <;> simp [Setpoint.Input.isPoll, h]

/-- **Whatever was set before, the count goes where the last setting asks**: after any history from a
count in the bounds, and as many calls without errors as there are counts between the bounds, the
count is MaxReplicas, MinReplicas or where it was. -/
theorem reaches_goal {is : List Input} {ts : List Tick} {d : Deployment}
    (hmin : 1 ≤ b.world.wl.spec.minReplicas) (hread : Readable rt.toPlatform repr b.stub)
    (hd : b.world.target = some d) (hin : b.world.wl.spec.InBounds d.count)
    (his : ∀ i ∈ is, i.Calm rt.toPlatform repr b.world.wl.deployKey)
    (hts : ∀ t ∈ ts, t.Undisturbed b.world.wl.deployKey)
    (hcalls : (b.world.wl.spec.maxReplicas.toInt - b.world.wl.spec.minReplicas.toInt).toNat ≤
      smoothCalls ts) :
    ∃ d' d'', (Run.final (step rt repr) b is).world.target = some d' ∧
      (Run.final (step rt repr) b (is ++ ts.map .call)).world.target = some d'' ∧
      d''.count.toInt = Setpoint.goal b.world.wl.spec.minReplicas.toInt
        b.world.wl.spec.maxReplicas.toInt d'.count.toInt
        (asks rt.toPlatform b.world.wl.spec (Run.final (step rt repr) b is).stub) := by
  have hle : b.world.wl.spec.minReplicas ≤ b.world.wl.spec.maxReplicas :=
    Int32.le_iff_toInt_le.mpr (hin.1.trans hin.2)
  have h0 : 0 ≤ d.count.toInt := by
    have hone := Int32.le_iff_toInt_le.mp hmin
    rw [Int32.toInt_one] at hone
    exact (by omega : (0 : ℤ) ≤ _).trans hin.1
  have htop : d.count.toInt < 2 ^ 31 - 1 ∨ b.world.wl.spec.maxReplicas.toInt = 2 ^ 31 - 1 := by
    have hmax := b.world.wl.spec.maxReplicas.toInt_lt
    have hcount := hin.2
    omega
  have hrun : ∀ js : List Input, (∀ j ∈ js, j.Calm rt.toPlatform repr b.world.wl.deployKey) →
      ∃ d', (Run.final (step rt repr) b js).world.target = some d' ∧
        Run.final (Setpoint.step b.world.wl.spec.minReplicas.toInt
            b.world.wl.spec.maxReplicas.toInt (asks rt.toPlatform b.world.wl.spec))
          ⟨b.stub, d.count.toInt⟩ (js.map Input.abs) =
            ⟨(Run.final (step rt repr) b js).stub, d'.count.toInt⟩ := fun js hjs =>
    follows hmin hle hread hd h0 htop hjs
  obtain ⟨d', hd', habs⟩ := hrun is his
  obtain ⟨d'', hd'', habs'⟩ := hrun (is ++ ts.map .call) fun j hj => by
    rcases List.mem_append.mp hj with hj | hj
    · exact his j hj
    · obtain ⟨t, ht, rfl⟩ := List.mem_map.mp hj
      exact hts t ht
  have hbounds := Setpoint.final_mem (asks rt.toPlatform b.world.wl.spec)
    (s := ⟨b.stub, d.count.toInt⟩) hin (is.map Input.abs)
  rw [List.map_append, Run.final_append, habs, List.map_map] at habs'
  rw [habs] at hbounds
  have hgoal := Setpoint.final_goal (steady_calls (asks rt.toPlatform b.world.wl.spec) _ ts)
    ((Setpoint.stepsLeft_le hbounds.1 hbounds.2 _).trans (hcalls.trans (countP_isPoll ts).ge))
  exact ⟨d', d'', hd', hd'', (congrArg Setpoint.State.counter habs').symm.trans hgoal⟩

/-! ### A run -/

/-- `repr` of the two usages below. -/
def reprTwo : Float64 → List Char
  | .finite k => if k = 9 / 10 then "0.9".toList else "0.5".toList
  | _ => "0.5".toList

theorem reprTwo_half : Prints (Runtime.exact 0).toPlatform reprTwo (1 / 2) where
  solid c hc := by
    have hall : (reprTwo (.finite (1 / 2))).all (fun c => !isSpaceChar c) = true := by
      decide +kernel
    exact (Bool.not_eq_true' _).mp (List.all_eq_true.mp hall c hc)
  read := by
    have hspecial : special? (reprTwo (.finite (1 / 2))) = none := by decide +kernel
    have hvalue : literalValue? (reprTwo (.finite (1 / 2))) = some (1 / 2) := by decide +kernel
    exact parseFloat_of_abs_le hspecial hvalue (by norm_num [abs_of_pos])

theorem reprTwo_ninety : Prints (Runtime.exact 0).toPlatform reprTwo (9 / 10) where
  solid c hc := by
    have hall : (reprTwo (.finite (9 / 10))).all (fun c => !isSpaceChar c) = true := by
      decide +kernel
    exact (Bool.not_eq_true' _).mp (List.all_eq_true.mp hall c hc)
  read := by
    have hspecial : special? (reprTwo (.finite (9 / 10))) = none := by decide +kernel
    have hvalue : literalValue? (reprTwo (.finite (9 / 10))) = some (9 / 10) := by decide +kernel
    exact parseFloat_of_abs_le hspecial hvalue (by norm_num [abs_of_pos])

/-- Half full, with one replica. -/
def sampleBench : Bench := ⟨⟨.finite (1 / 2), 0⟩, .fresh .sample (some 1)⟩

/-- `{"kv": 0.9}` -/
def ninety : Input := .set ⟨some (.ok (.finite (9 / 10))), none⟩

theorem ninety_calm (key : ObjectKey) :
    ninety.Calm (Runtime.exact 0).toPlatform reprTwo key := by
  intro v hv
  cases hv
  exact reprTwo_ninety.shown

/-- Its target. -/
def sampleTarget : Deployment :=
  { key := ⟨"default", "mock-vllm"⟩, resourceVersion := 1, replicas := some 1, rest := [] }

theorem sampleBench_target : sampleBench.world.target = some sampleTarget := rfl

/-- Ninety percent, then a call. -/
theorem follows_sample :
    ∃ d', (Run.final (step (.exact 0) reprTwo) sampleBench
        [ninety, .call (.serving "")]).world.target = some d' ∧
      Run.final (Setpoint.step WorkloadLifecycleSpec.sample.minReplicas.toInt
          WorkloadLifecycleSpec.sample.maxReplicas.toInt (asks (Runtime.exact 0).toPlatform .sample))
        ⟨sampleBench.stub, sampleTarget.count.toInt⟩ ([ninety, .call (.serving "")].map Input.abs) =
          ⟨(Run.final (step (.exact 0) reprTwo) sampleBench [ninety, .call (.serving "")]).stub,
            d'.count.toInt⟩ :=
  follows (by decide) (by decide) reprTwo_half.shown sampleBench_target (by decide)
    (.inl (by decide)) fun i hi => by
      rcases List.mem_pair.mp hi with rfl | rfl
      · exact ninety_calm _
      · exact undisturbed_serving _ _

/-- Ninety percent, then two calls. -/
theorem reaches_goal_sample :
    ∃ d' d'', (Run.final (step (.exact 0) reprTwo) sampleBench [ninety]).world.target = some d' ∧
      (Run.final (step (.exact 0) reprTwo) sampleBench
        ([ninety] ++ [Tick.serving "", .serving ""].map .call)).world.target = some d'' ∧
      d''.count.toInt = Setpoint.goal WorkloadLifecycleSpec.sample.minReplicas.toInt
        WorkloadLifecycleSpec.sample.maxReplicas.toInt d'.count.toInt
        (asks (Runtime.exact 0).toPlatform .sample
          (Run.final (step (.exact 0) reprTwo) sampleBench [ninety]).stub) :=
  reaches_goal (by decide) reprTwo_half.shown sampleBench_target (by decide)
    (fun i hi => List.mem_singleton.mp hi ▸ ninety_calm _)
    (fun t ht => by
      rcases List.mem_pair.mp ht with rfl | rfl <;> exact undisturbed_serving _ _)
    (by decide)

end Bench

end InfraDemo.Operator
