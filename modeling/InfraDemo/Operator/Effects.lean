import InfraDemo.Operator.Interleave

/-!
# Effects — what one call of `reconcile` does to the outside

The calls are answered in any way.  A call that cannot read its object does nothing else; any other
makes one status write, before it at most one Deployment write, and asks to be called again
(`effect_discipline`).  What the status write is answered is only logged (`reconcile_ignores`).
-/

namespace InfraDemo.Operator

open InfraDemo.Go

/-! ### Writes -/

/-- A write to the API server. -/
inductive Write where
  | deployment (d : Deployment)
  | status (wl : WorkloadLifecycle)

def Exchange.write? : Exchange → Option Write
  | ⟨.updateDeployment d, _⟩ => some (.deployment d)
  | ⟨.updateStatus wl, _⟩ => some (.status wl)
  | _ => none

/-- The writes among some exchanges, in order. -/
def writes (h : List Exchange) : List Write := h.filterMap Exchange.write?

/-- `h'` goes on from `h` and makes the writes `ws`. -/
structure Adds (h h' : List Exchange) (ws : List Write) : Prop where
  before : h <+: h'
  writes : writes h' = writes h ++ ws

section Adds

variable {h h' h'' : List Exchange} {ws ws' : List Write}

theorem Adds.refl (h : List Exchange) : Adds h h [] := ⟨List.prefix_rfl, (List.append_nil _).symm⟩

theorem Adds.trans (h₁ : Adds h h' ws) (h₂ : Adds h' h'' ws') : Adds h h'' (ws ++ ws') := by
  refine ⟨h₁.before.trans h₂.before, ?_⟩
  rw [h₂.writes, h₁.writes, List.append_assoc]

/-- One more exchange. -/
theorem Adds.concat (h₁ : Adds h h' ws) (e : Exchange) :
    Adds h (h' ++ [e]) (ws ++ e.write?.toList) := by
  refine h₁.trans ⟨List.prefix_append h' [e], ?_⟩
  unfold Operator.writes
  rw [List.filterMap_append]
  cases he : e.write? with
  | none => rw [List.filterMap_cons_none he]; rfl
  | some w => rw [List.filterMap_cons_some he]; rfl

end Adds

/-! ### The contract of `reconcile` -/

variable (rt : Runtime)

/-- A program that goes on from `h` and adds the writes `W` allows. -/
def Writing {α : Type} (W : α → List Write → Prop) (p : Action α) : Prop :=
  ∀ h, Prog.Ensures (fun _ _ => True) AnyAnswer p h fun a h' => ∃ ws, Adds h h' ws ∧ W a ws

section Writing

variable {α β : Type} {W : α → List Write → Prop} {W' : β → List Write → Prop}

theorem writing_pure {a : α} (ha : W a []) : Writing W (pure a) := fun h => ⟨[], .refl h, ha⟩

theorem writing_perform {o : Op} {W : o.Ans → List Write → Prop}
    (ho : ∀ x : o.Ans, W x (Exchange.write? ⟨o, x⟩).toList) : Writing W (Prog.perform o) :=
  fun h => ⟨trivial, fun x _ => ⟨_, (Adds.refl h).concat ⟨o, x⟩, ho x⟩⟩

theorem writing_bind {p : Action α} {f : α → Action β} (hp : Writing W p)
    (hf : ∀ a ws, W a ws → Writing (fun b ws' => W' b (ws ++ ws')) (f a)) :
    Writing W' (p >>= f) := by
  intro h
  rw [Prog.ensures_bind]
  refine (hp h).mono fun a h' ⟨ws, hadd, ha⟩ => ?_
  exact (hf a ws ha h').mono fun b h'' ⟨ws', hadd', hb⟩ => ⟨_, hadd.trans hadd', hb⟩

theorem Writing.mono {W₁ W₂ : α → List Write → Prop} {p : Action α} (hp : Writing W₁ p)
    (hW : ∀ a ws, W₁ a ws → W₂ a ws) : Writing W₂ p :=
  fun h => (hp h).mono fun a _ ⟨ws, hadd, ha⟩ => ⟨ws, hadd, hW a ws ha⟩

end Writing

/-- No write. -/
def Quiet {α : Type} (_ : α) (ws : List Write) : Prop := ws = []

/-- One status write. -/
def Reports {α : Type} (_ : α) (ws : List Write) : Prop := ∃ wl, ws = [.status wl]

theorem writing_recordEventIf (cond : Prop) [Decidable cond] (event : Event) :
    Writing Quiet (recordEventIf cond event) := by
  unfold recordEventIf
  split_ifs
  · exact writing_perform fun _ => rfl
  · exact writing_pure rfl

theorem writing_scaleTime (wl : WorkloadLifecycle) (u : StatusUpdate) :
    Writing Quiet (scaleTime wl u) := by
  unfold scaleTime
  split_ifs
  · exact writing_bind (W := Quiet) (writing_perform fun _ => rfl) fun _ _ hw =>
      writing_pure (by rw [hw]; rfl)
  · exact writing_pure rfl

/-- What comes after no write. -/
theorem writing_after {α β : Type} {W : β → List Write → Prop} {p : Action α} {f : α → Action β}
    (hp : Writing Quiet p) (hf : ∀ a, Writing W (f a)) : Writing W (p >>= f) :=
  writing_bind hp fun a ws hw => by
    rw [hw]
    exact hf a

theorem writing_recordStatus (wl : WorkloadLifecycle) (u : StatusUpdate) :
    Writing Reports (recordStatus rt wl u) := by
  unfold recordStatus
  refine writing_after (writing_scaleTime wl u) fun last => ?_
  refine writing_after (writing_perform fun _ => rfl) fun t₁ => ?_
  refine writing_after (writing_perform fun _ => rfl) fun t₂ => ?_
  refine writing_bind (W := Reports) (writing_perform fun x => ⟨_, rfl⟩) fun _ ws hw => ?_
  exact writing_pure (by rwa [List.append_nil])

/-- One status write, after at most one Deployment write. -/
def Adjusts {α : Type} (_ : α) (ws : List Write) : Prop :=
  ∃ wl, ws = [.status wl] ∨ ∃ d, ws = [.deployment d, .status wl]

theorem writing_makeAdjustmentIfNeeded (wl : WorkloadLifecycle) (d : Deployment)
    (current desired usage threshold : Int32) :
    Writing Adjusts (makeAdjustmentIfNeeded rt wl d current desired usage threshold) := by
  have hstatus : ∀ (u : StatusUpdate) (err : Option ApiError) (d' : Deployment),
      Writing (fun x ws => Adjusts x ([.deployment d'] ++ ws))
        (do recordStatus rt wl u; pure err) := by
    intro u err d'
    refine writing_bind (writing_recordStatus rt wl u) ?_
    rintro _ ws ⟨wl', hw⟩
    exact writing_pure ⟨wl', .inr ⟨d', by rw [hw]; rfl⟩⟩
  unfold makeAdjustmentIfNeeded
  split_ifs
  · refine writing_bind (writing_recordStatus rt wl _) ?_
    rintro _ ws ⟨wl', hw⟩
    exact writing_pure ⟨wl', .inl (by rw [hw]; rfl)⟩
  · refine writing_bind (W := fun _ ws => ∃ d', ws = [.deployment d'])
      (writing_perform fun x => ⟨_, rfl⟩) ?_
    rintro x ws ⟨d', rfl⟩
    cases x with
    | some err => exact writing_after (writing_recordEventIf _ _) fun _ => hstatus _ _ d'
    | none => exact writing_after (writing_perform fun _ => rfl) fun _ => hstatus _ _ d'

/-- The call reports and will be made again. -/
def Polls (r : Result × Option ApiError) (ws : List Write) : Prop :=
  (0 < r.1.requeueAfter ∨ r.2 ≠ none) ∧ Adjusts r ws

/-- The part of `reconcile` behind the read of its object. -/
theorem reconcile_reads (req : ObjectKey) : ∃ rest : WorkloadLifecycle → Action _,
    (reconcile rt req = do
      match ← getWorkload req with
      | .error err => pure ({}, ignoreNotFound err)
      | .ok wl => rest wl) ∧ ∀ wl, Writing Polls (rest wl) := by
  refine ⟨_, rfl, fun wl => ?_⟩
  have hfail : ∀ (u : StatusUpdate) (err : Option ApiError), Writing Polls
      (do recordStatus rt wl u; pure ({ requeueAfter := 15 }, err)) := by
    intro u err
    refine writing_bind (writing_recordStatus rt wl u) fun _ ws ⟨wl', hw⟩ => writing_pure ?_
    exact ⟨.inl (Nat.succ_pos 14), wl', .inl (by rw [hw]; rfl)⟩
  refine writing_after (writing_after (writing_perform fun _ => rfl) fun _ => writing_pure rfl)
    fun metrics => ?_
  cases metrics with
  | error err => exact writing_after (writing_recordEventIf _ _) fun _ => hfail _ _
  | ok metrics =>
    refine writing_after (writing_recordEventIf _ _) fun _ => ?_
    have hobserve : Writing Quiet (observeDeployment wl) := by
      refine writing_after (writing_perform fun _ => rfl) fun answer => ?_
      cases answer with
      | error err => exact writing_pure rfl
      | ok d => exact writing_pure rfl
    refine writing_after hobserve fun answer => ?_
    cases answer with
    | error err => exact writing_after (writing_recordEventIf _ _) fun _ => hfail _ _
    | ok read =>
      refine writing_after (writing_recordEventIf _ _) fun _ => ?_
      refine writing_bind (writing_makeAdjustmentIfNeeded rt wl _ _ _ _ _) fun err ws hw =>
        writing_pure ?_
      rw [List.append_nil]
      exact ⟨.inl (Nat.succ_pos 14), hw⟩

/-! ### What is ignored -/

/-- The status write. -/
def Op.IsStatusWrite : Op → Prop
  | .updateStatus _ => True
  | _ => False

instance : DecidablePred Op.IsStatusWrite
  | .updateStatus _ => .isTrue trivial
  | .getWorkload _ | .httpGet _ | .getDeployment _ | .updateDeployment _ | .recordEvent _ | .now _ =>
    .isFalse id

theorem ignores_recordEventIf (cond : Prop) [Decidable cond] (event : Event) :
    Prog.Ignores Op.IsStatusWrite (recordEventIf cond event) := by
  unfold recordEventIf
  split_ifs
  · exact Prog.ignores_perform id
  · trivial

theorem ignores_recordStatus (wl : WorkloadLifecycle) (u : StatusUpdate) :
    Prog.Ignores Op.IsStatusWrite (recordStatus rt wl u) := by
  have hscale : Prog.Ignores Op.IsStatusWrite (scaleTime wl u) := by
    unfold scaleTime
    split_ifs
    · exact Prog.ignores_bind (Prog.ignores_perform id) fun _ => trivial
    · trivial
  unfold recordStatus
  refine Prog.ignores_bind hscale fun _ => ?_
  refine Prog.ignores_bind (Prog.ignores_perform id) fun _ => ?_
  refine Prog.ignores_bind (Prog.ignores_perform id) fun _ => ?_
  exact Prog.ignores_perform_bind trivial

theorem ignores_makeAdjustmentIfNeeded (wl : WorkloadLifecycle) (d : Deployment)
    (current desired usage threshold : Int32) : Prog.Ignores Op.IsStatusWrite
      (makeAdjustmentIfNeeded rt wl d current desired usage threshold) := by
  unfold makeAdjustmentIfNeeded
  split_ifs
  · exact Prog.ignores_bind (ignores_recordStatus rt wl _) fun _ => trivial
  · refine Prog.ignores_bind (Prog.ignores_perform id) fun x => ?_
    cases x with
    | some err =>
      exact Prog.ignores_bind (ignores_recordEventIf _ _) fun _ =>
        Prog.ignores_bind (ignores_recordStatus rt wl _) fun _ => trivial
    | none =>
      exact Prog.ignores_bind (Prog.ignores_perform id) fun _ =>
        Prog.ignores_bind (ignores_recordStatus rt wl _) fun _ => trivial

/-- **The answer to the status write is ignored.** -/
theorem reconcile_ignores (req : ObjectKey) :
    Prog.Ignores Op.IsStatusWrite (reconcile rt req) := by
  have hfail : ∀ wl (u : StatusUpdate) (r : Result × Option ApiError),
      Prog.Ignores Op.IsStatusWrite (do recordStatus rt wl u; pure r) := fun wl u r =>
    Prog.ignores_bind (ignores_recordStatus rt wl u) fun _ => trivial
  unfold reconcile
  refine Prog.ignores_bind (Prog.ignores_perform id) fun x => ?_
  cases x with
  | error err => trivial
  | ok wl =>
    refine Prog.ignores_bind (Prog.ignores_bind (Prog.ignores_perform id) fun _ => trivial)
      fun metrics => ?_
    cases metrics with
    | error err => exact Prog.ignores_bind (ignores_recordEventIf _ _) fun _ => hfail _ _ _
    | ok metrics =>
      refine Prog.ignores_bind (ignores_recordEventIf _ _) fun _ => ?_
      have hobserve : Prog.Ignores Op.IsStatusWrite (observeDeployment wl) := by
        refine Prog.ignores_bind (Prog.ignores_perform id) fun answer => ?_
        cases answer with
        | error err => trivial
        | ok d => trivial
      refine Prog.ignores_bind hobserve fun answer => ?_
      cases answer with
      | error err => exact Prog.ignores_bind (ignores_recordEventIf _ _) fun _ => hfail _ _ _
      | ok read =>
        refine Prog.ignores_bind (ignores_recordEventIf _ _) fun _ => ?_
        exact Prog.ignores_bind (ignores_makeAdjustmentIfNeeded rt wl _ _ _ _ _) fun _ => trivial

/-! ### One call -/

variable {rt} {h h' : List Exchange} {r r' : Result × Option ApiError}

variable (rt) in
/-- What a call does that was given its object: one status write, before it at most one Deployment
write, which was decided on both observations and changes the count, and another call is asked for. -/
structure Disciplined (h : List Exchange) (r : Result × Option ApiError) : Prop where
  writes : ∃ wl, writes h = [.status wl] ∨ ∃ d, writes h = [.deployment d, .status wl]
  decided : ∀ h₀ d x h₁, h = h₀ ++ ⟨.updateDeployment d, x⟩ :: h₁ → Decided rt h₀ d
  polls : 0 < r.1.requeueAfter ∨ r.2 ≠ none

/-- **Effect discipline.**  However its calls are answered: without its object a call does nothing
else and returns neither a requeue nor an error exactly if the object was not found; with its object
it is disciplined; and a call that differs in the answer to its status write returns the same. -/
theorem effect_discipline {req : ObjectKey} (hr : Prog.Returns (reconcile rt req) h r) :
    (∃ x t, h = ⟨.getWorkload req, x⟩ :: t ∧
      match x with
      | .error err => t = [] ∧ (r.1.requeueAfter = 0 ∧ r.2 = none ↔ err.notFound = true)
      | .ok _ => Disciplined rt h r) ∧
    ∀ h' r', Prog.Returns (reconcile rt req) h' r' →
      Prog.heard Op.IsStatusWrite h' = Prog.heard Op.IsStatusWrite h → r' = r := by
  refine ⟨?_, fun h' r' hr' hsame => (reconcile_ignores rt req).eq_of_returns hr' hr hsame⟩
  have hobeys := ((reconcile_ensures rt req).of_returns Prog.obeys_nil hr).2
  obtain ⟨rest, hrest, hwrites⟩ := reconcile_reads rt req
  rw [hrest] at hr
  cases hr with
  | @call _ _ x t _ hr =>
    refine ⟨x, t, rfl, ?_⟩
    cases x with
    | error err =>
      cases hr
      refine ⟨rfl, ?_⟩
      unfold ignoreNotFound
      cases err.notFound <;> simp
    | ok wl =>
      obtain ⟨ws, hadd, hpoll, hadj⟩ := ((hwrites wl []).of_returns Prog.obeys_nil hr).1
      refine ⟨?_, fun h₀ d x h₁ hsplit => hobeys h₀ _ x h₁ (by rw [← hsplit]; rfl), hpoll⟩
      have htail : writes (⟨.getWorkload req, .ok wl⟩ :: t) = ws := hadd.writes
      rwa [← htail] at hadj

theorem effect_discipline_sample : ∃ r : Result × Option ApiError, ∃ h : List Exchange,
    (∃ wl, h.head? = some ⟨.getWorkload (World.fresh .sample (some 2)).wl.key, .ok wl⟩) ∧
      Disciplined (.exact 0) h r := by
  have hr := Prog.returns_run (handle (.serving "vllm_kv_cache_usage_perc 0.9"))
    (reconcile (.exact 0) (World.fresh .sample (some 2)).wl.key) (.fresh .sample (some 2))
  obtain ⟨⟨x, t, ht, hx⟩, -⟩ := effect_discipline hr
  have hok : x = .ok (World.fresh .sample (some 2)).wl := by
    cases (List.cons.inj ht).1
    rfl
  subst hok
  exact ⟨_, _, ⟨_, by rw [ht]; rfl⟩, hx⟩

end InfraDemo.Operator
