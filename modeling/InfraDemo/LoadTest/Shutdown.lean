import InfraDemo.LoadTest.Collector
import InfraDemo.LoadTest.Report

/-!
# Shutdown — what is left of a run that was cut off

A `KeyboardInterrupt` ends the collection loop; the sessions in flight finish, but nobody takes their
results any more.  The exception of a session ends the script without a report.  `complete_iff` says
which runs lose nothing: those of steps that spare the turns (`State.Spares`).
-/

namespace InfraDemo.LoadTest

variable (a : Args)

/-- The run was cut off in the collection loop, and the pool has shut down. -/
structure State.CutOff (s : State) : Prop where
  main : s.main = .interrupted ∨ s.main = .failed
  ended : ∀ w ∈ s.sessions, w.Ended

/-- What the run prints in the end. -/
def State.output (s : State) : Output :=
  if s.main = .failed then .traceback else printResults a.script s.allResults

/-- The table and the summary are printed, and every turn that a session measured stands once in the
table. -/
def State.Complete (s : State) : Prop :=
  ∃ table summary, s.output a = .printed table (some summary) ∧
    ∀ w ∈ s.sessions, ∀ r ∈ w.results, table.count r = 1

/-- A collected session has had a turn, and a session that was not collected has had none. -/
structure State.Settled (s : State) : Prop where
  turn : ∃ i ∈ s.collected, s.resultsOf i ≠ []
  rest : ∀ i, i ∉ s.collected → s.resultsOf i = []

/-- The step loses no turn: the main thread does not meet an exception, an interrupt comes when the
state is settled, and after it no request returns. -/
structure State.Spares (s s' : State) : Prop where
  fail : s'.main ≠ .failed
  interrupt : s.main ≠ .interrupted → s'.main = .interrupted → s.Settled
  reply : s.main = .interrupted → ∀ i, s'.resultsOf i = s.resultsOf i

/-- The state is reached in steps that lose no turn. -/
inductive State.Spared : State → Prop where
  | init : Spared (State.init a)
  | step {s s' : State} (reached : Spared s) (step : s.Step a s') (spares : s.Spares s') :
      Spared s'

variable {a} {s s' : State}

/-! ### What stands in the report -/

/-- A chat result in the list is one of a collected session. -/
theorem exists_collected (h : s.Sound a) {r : Row} (hr : r ∈ s.allResults) (hchat : r.isChat) :
    ∃ i ∈ s.collected, r ∈ s.resultsOf i := by
  have hmem : r ∈ s.allResults.filter Row.isChat := List.mem_filter.mpr ⟨hr, hchat⟩
  rw [h.rows] at hmem
  exact List.mem_flatMap.mp hmem

theorem mem_allResults (h : s.Sound a) {i : ℕ} {r : Row} (hi : i ∈ s.collected)
    (hr : r ∈ s.resultsOf i) : r ∈ s.allResults ∧ r.isChat = true := by
  have hmem : r ∈ s.allResults.filter Row.isChat := by
    rw [h.rows]
    exact List.mem_flatMap.mpr ⟨i, hi, hr⟩
  exact List.mem_filter.mp hmem

theorem exists_session {i : ℕ} {r : Row} (hr : r ∈ s.resultsOf i) :
    ∃ w ∈ s.sessions, r ∈ w.results := by
  unfold State.resultsOf at hr
  cases hw : s.sessions[i]? with
  | none =>
    rw [hw] at hr
    cases hr
  | some w =>
    simp only [hw] at hr
    exact ⟨w, List.mem_of_getElem? hw, hr⟩

/-- A chat result has the chat type. -/
theorem type_of_isChat (h : s.Sound a) {r : Row} (hr : r ∈ s.allResults) (hchat : r.isChat) :
    r.type = a.script.chatType := by
  obtain ⟨i, hi, hri⟩ := exists_collected h hr hchat
  obtain ⟨w, hw, -⟩ := h.returned i hi
  rw [resultsOf_of_getElem? hw] at hri
  exact (h.sessions w (List.mem_of_getElem? hw)).type r hri

/-- There is a summary exactly if there is a chat result. -/
theorem exists_summary_iff (h : s.Sound a) :
    (∃ x, summary a.script s.allResults = some x) ↔ ∃ r ∈ s.allResults, r.isChat = true := by
  rw [summary_eq_some_iff]
  cases hscript : a.script with
  | multiSession =>
    have hno : ¬ a.Injects := by
      rintro ⟨hchunked, -⟩
      rw [hscript] at hchunked
      cases hchunked
    constructor
    · intro hne
      obtain ⟨r, hr⟩ := List.exists_mem_of_ne_nil _ hne
      exact ⟨r, hr, (h.noInject hno).2 r hr⟩
    · rintro ⟨r, hr, -⟩
      exact List.ne_nil_of_mem hr
  | chunkedPrefill =>
    refine exists_congr fun r => and_congr_right fun hr => ?_
    constructor
    · intro htype
      by_contra hchat
      have hinject := h.injected r hr (Bool.eq_false_iff.mpr hchat)
      rw [htype] at hinject
      cases hinject
    · intro hchat
      rw [type_of_isChat h hr hchat, hscript]
      rfl

/-- The sessions share no result. -/
theorem eq_of_mem_resultsOf (h : s.Sound a) {i j : ℕ} {r : Row} (hi : r ∈ s.resultsOf i)
    (hj : r ∈ s.resultsOf j) : i = j := by
  have hki := fst_of_mem_keys h (List.mem_map_of_mem (f := Row.key) hi)
  have hkj := fst_of_mem_keys h (List.mem_map_of_mem (f := Row.key) hj)
  exact Nat.succ_injective (Origin.session.inj (hki.symm.trans hkj))

/-- A report with a summary. -/
theorem output_eq_printed_iff (h : s.Sound a) (hcut : s.CutOff) {table : List Row} :
    (∃ x, s.output a = .printed table (some x)) ↔ s.main = .interrupted ∧
      (∃ r ∈ s.allResults, r.isChat = true) ∧ table = s.allResults.mergeSort (Row.le a.script) := by
  rw [← exists_summary_iff h]
  unfold State.output
  rcases hcut.main with hmain | hmain
  · have hne : s.main ≠ .failed := by rw [hmain]; exact Main.noConfusion
    rw [if_neg hne]
    unfold printResults
    constructor
    · rintro ⟨x, hx⟩
      split_ifs at hx
      injection hx with htable hsummary
      exact ⟨hmain, ⟨x, hsummary⟩, htable.symm⟩
    · rintro ⟨-, ⟨x, hx⟩, htable⟩
      have hsome := (exists_summary_iff h).mp ⟨x, hx⟩
      obtain ⟨r, hr, -⟩ := hsome
      rw [if_neg (List.ne_nil_of_mem hr), hx, htable]
      exact ⟨x, rfl⟩
  · rw [if_pos hmain]
    refine iff_of_false (fun ⟨x, hx⟩ => by cases hx) ?_
    rintro ⟨hint, -⟩
    rw [hmain] at hint
    cases hint

/-- A turn of a collected session stands once in the list. -/
theorem count_allResults (h : s.Sound a) (hnodup : s.collected.Nodup) {i : ℕ} {r : Row}
    (hi : i ∈ s.collected) (hr : r ∈ s.resultsOf i) : s.allResults.count r = 1 := by
  obtain ⟨hmem, hchat⟩ := mem_allResults h hi hr
  have hrows : (s.allResults.filter Row.isChat).Nodup := (nodup_keys h hnodup).of_map
  rw [← List.count_filter hchat]
  exact List.count_eq_one_of_mem hrows (List.mem_filter.mpr ⟨hmem, hchat⟩)

/-- A turn of a session that was not collected is missing. -/
theorem not_complete_of_lost (h : s.Sound a) (hcut : s.CutOff) {i : ℕ} {r : Row}
    (hi : i ∉ s.collected) (hr : r ∈ s.resultsOf i) : ¬ s.Complete a := by
  rintro ⟨table, x, hx, hcount⟩
  obtain ⟨-, -, rfl⟩ := (output_eq_printed_iff h hcut).mp ⟨x, hx⟩
  obtain ⟨w, hw, hrw⟩ := exists_session hr
  have htable : r ∈ s.allResults.mergeSort (Row.le a.script) :=
    List.count_pos_iff.mp (by rw [hcount w hw r hrw]; exact Nat.one_pos)
  have hchat : r.isChat = true := (h.sessions w hw).isChat hrw
  obtain ⟨j, hj, hrj⟩ := exists_collected h (List.mem_mergeSort.mp htable) hchat
  rw [eq_of_mem_resultsOf h hr hrj] at hi
  exact hi hj

/-- The report is complete exactly if the run was interrupted and has settled. -/
theorem complete_iff_settled (hs : s.Reachable a) (hcut : s.CutOff) :
    s.Complete a ↔ s.main = .interrupted ∧ s.Settled := by
  have h := reachable_sound hs
  obtain ⟨p, -, hcollected, -⟩ := exists_pool hs
  have hnodup : s.collected.Nodup := hcollected ▸ p.nodup
  have hturn : (∃ r ∈ s.allResults, r.isChat = true) ↔ ∃ i ∈ s.collected, s.resultsOf i ≠ [] := by
    constructor
    · rintro ⟨r, hr, hchat⟩
      obtain ⟨i, hi, hri⟩ := exists_collected h hr hchat
      exact ⟨i, hi, List.ne_nil_of_mem hri⟩
    · rintro ⟨i, hi, hne⟩
      obtain ⟨r, hr⟩ := List.exists_mem_of_ne_nil _ hne
      exact ⟨r, mem_allResults h hi hr⟩
  constructor
  · intro hcomplete
    have hprinted := hcomplete
    obtain ⟨table, x, hx, -⟩ := hprinted
    obtain ⟨hmain, hsome, -⟩ := (output_eq_printed_iff h hcut).mp ⟨x, hx⟩
    refine ⟨hmain, hturn.mp hsome, fun i hi => ?_⟩
    by_contra hne
    obtain ⟨r, hr⟩ := List.exists_mem_of_ne_nil _ hne
    exact not_complete_of_lost h hcut hi hr hcomplete
  · rintro ⟨hmain, hsome, hnone⟩
    obtain ⟨x, hx⟩ := (output_eq_printed_iff h hcut).mpr ⟨hmain, hturn.mpr hsome, rfl⟩
    refine ⟨_, x, hx, fun w hw r hr => ?_⟩
    obtain ⟨i, hi, rfl⟩ := List.getElem_of_mem hw
    have hri : r ∈ s.resultsOf i := by
      rwa [resultsOf_of_getElem? (List.getElem?_eq_getElem hi)]
    have hcol : i ∈ s.collected := by
      by_contra hno
      rw [hnone i hno] at hri
      cases hri
    rw [(List.mergeSort_perm ..).count_eq]
    exact count_allResults h hnodup hcol hri

/-! ### Runs that lose no turn -/

/-- The results of a session only grow. -/
theorem resultsOf_prefix (hs : s.Step a s') (i : ℕ) : s.resultsOf i <+: s'.resultsOf i := by
  cases hs with
  | @session j w w' future step =>
    by_cases hj : j = i
    · subst hj
      have hset : (s.sessions.set j w')[j]? = some w' :=
        List.getElem?_set_self (List.getElem?_eq_some_iff.mp future).1
      rw [resultsOf_of_getElem? future, resultsOf_of_getElem? hset]
      exact ChatSession.results_prefix step
    · unfold State.resultsOf
      rw [List.getElem?_set_ne hj]
  | newSession starting =>
    unfold State.resultsOf State.newSession
    cases hw : s.sessions[i]? with
    | none => exact List.nil_prefix
    | some w =>
      rw [List.getElem?_append_left (List.getElem?_eq_some_iff.mp hw).1, hw]
  | _ => exact List.prefix_rfl

/-- A collected session has had its turns. -/
theorem resultsOf_of_collected (h : s.Sound a) (hs : s.Step a s') {i : ℕ} (hi : i ∈ s.collected) :
    s'.resultsOf i = s.resultsOf i := by
  obtain ⟨w, hw, hr⟩ := h.returned i hi
  cases hs with
  | session future step =>
    rw [resultsOf_of_getElem? hw]
    exact resultsOf_of_getElem? (getElem?_set_of_returned future step hw hr)
  | newSession starting =>
    rw [resultsOf_of_getElem? hw]
    refine resultsOf_of_getElem? ?_
    exact (List.getElem?_append_left (List.getElem?_eq_some_iff.mp hw).1).trans hw
  | _ => rfl

/-- After an interrupt nothing is collected. -/
theorem step_interrupted (hs : s.Step a s') (hmain : s.main = .interrupted) :
    s'.main = .interrupted ∧ s'.collected = s.collected := by
  cases hs with
  | session | fire | inject | misfire => exact ⟨hmain, rfl⟩
  | interrupt => exact ⟨rfl, rfl⟩
  | fail loop => rcases loop with h | h <;> rw [hmain] at h <;> cases h
  | wait h | collect h | newSession h | again h | complete h | leave h =>
    rw [hmain] at h
    cases h

/-- An interrupt changes nothing of what was collected or measured. -/
theorem step_interrupt (hs : s.Step a s') (hne : s.main ≠ .interrupted)
    (hmain : s'.main = .interrupted) :
    s'.collected = s.collected ∧ s'.resultsOf = s.resultsOf := by
  cases hs with
  | session | fire | inject | misfire => exact absurd hmain hne
  | interrupt => exact ⟨rfl, rfl⟩
  | wait | collect | newSession | again | complete | leave | fail => cases hmain

/-- The main thread does not come back from an exception. -/
theorem step_failed (hs : s.Step a s') (hmain : s.main = .failed) : s'.main = .failed := by
  cases hs with
  | session | fire | inject | misfire => exact hmain
  | fail => rfl
  | interrupt loop =>
    rw [hmain] at loop
    exact loop.elim
  | wait h | collect h | newSession h | again h | complete h | leave h =>
    rw [hmain] at h
    cases h

theorem State.Settled.congr (h : s.Settled) (hcollected : s'.collected = s.collected)
    (hresults : s'.resultsOf = s.resultsOf) : s'.Settled := by
  refine ⟨?_, ?_⟩
  · rw [hcollected, hresults]
    exact h.turn
  · rw [hcollected, hresults]
    exact h.rest

/-- A run that lost no turn is settled when it was interrupted. -/
theorem settled_of_spared (h : s.Spared a) :
    s.main ≠ .failed ∧ (s.main = .interrupted → s.Settled) := by
  induction h with
  | init =>
    have hloop : (State.init a).main.InLoop := by
      unfold State.init
      split_ifs <;> trivial
    refine ⟨fun hmain => ?_, fun hmain => ?_⟩
    · exact (hmain ▸ hloop : Main.InLoop .failed).elim
    · exact (hmain ▸ hloop : Main.InLoop .interrupted).elim
  | @step s s' _ hstep hspares ih =>
    refine ⟨hspares.fail, fun hmain => ?_⟩
    by_cases hs : s.main = .interrupted
    · have hcollected := (step_interrupted hstep hs).2
      exact (ih.2 hs).congr hcollected (funext (hspares.reply hs))
    · obtain ⟨hcollected, hresults⟩ := step_interrupt hstep hs hmain
      exact (hspares.interrupt hs hmain).congr hcollected hresults

/-- A run that is settled when it was interrupted has lost no turn on its way: what was measured stays
measured, so the steps before had settled too. -/
theorem spared_of_settled (h : s.Reachable a) (hfail : s.main ≠ .failed)
    (hsettled : s.main = .interrupted → s.Settled) : s.Spared a := by
  induction h with
  | init => exact .init
  | @step s s' hreached hstep ih =>
    have hsound := reachable_sound hreached
    have hkeep : s.main = .interrupted → s'.resultsOf = s.resultsOf := by
      intro hs
      obtain ⟨hmain, hcollected⟩ := step_interrupted hstep hs
      funext i
      by_cases hi : i ∈ s.collected
      · exact resultsOf_of_collected hsound hstep hi
      · have hnil := (hsettled hmain).rest i (hcollected ▸ hi)
        have hprefix := resultsOf_prefix hstep i
        rw [hnil] at hprefix ⊢
        exact (List.prefix_nil.mp hprefix).symm
    have hbefore : s.main = .interrupted → s.Settled := by
      intro hs
      obtain ⟨hmain, hcollected⟩ := step_interrupted hstep hs
      exact (hsettled hmain).congr hcollected.symm (hkeep hs).symm
    refine .step (ih (fun hs => hfail (step_failed hstep hs)) hbefore) hstep ⟨hfail, ?_, ?_⟩
    · intro hs hmain
      obtain ⟨hcollected, hresults⟩ := step_interrupt hstep hs hmain
      exact (hsettled hmain).congr hcollected.symm hresults.symm
    · intro hs i
      exact congrFun (hkeep hs) i

/-- **What is printed of a run that was cut off.**  The report is complete exactly if the run is one of
steps that lose no turn: what a session measured in flight, or had ready when the interrupt came, is
lost, and an exception loses everything. -/
theorem complete_iff (hs : s.Reachable a) (hcut : s.CutOff) : s.Complete a ↔ s.Spared a := by
  rw [complete_iff_settled hs hcut]
  constructor
  · rintro ⟨hmain, hsettled⟩
    refine spared_of_settled hs ?_ fun _ => hsettled
    rw [hmain]
    exact Main.noConfusion
  · intro hspared
    obtain ⟨hfail, hsettled⟩ := settled_of_spared hspared
    have hmain := hcut.main.resolve_right hfail
    exact ⟨hmain, hsettled hmain⟩

/-! ### Two ends of one run -/

/-- The first of two sessions has had its turn and was collected, the second is `w`, and the run is
interrupted. -/
structure SecondInFlight (s : State) (w : ChatSession) : Prop where
  reached : s.Reachable oneByOne
  main : s.main = .interrupted
  stop : s.stopEvent = true
  collected : s.collected = [0]
  sessions : ∃ v : ChatSession, v.phase = .returned ∧ v.results ≠ [] ∧ s.sessions = [v, w]

theorem secondInFlight_start : ∃ s : State, SecondInFlight s (ChatSession.start oneByOne 2) := by
  obtain ⟨s, hs, hhead, -, hcollected, hsessions⟩ := oneByOne_replaces ⟨0, 0, 0, ""⟩
  have hloop : s.main.InLoop := by
    rw [hhead]
    trivial
  exact ⟨_, hs.step (.interrupt hloop), rfl, rfl, hcollected, _, rfl, List.cons_ne_nil _ _, hsessions⟩

theorem SecondInFlight.step {s : State} {w w' : ChatSession} (h : SecondInFlight s w)
    (hstep : w.Step oneByOne true w') : ∃ s' : State, SecondInFlight s' w' := by
  obtain ⟨v, hv, hne, hsessions⟩ := h.sessions
  have hfuture : s.sessions[1]? = some w := by
    rw [hsessions]
    rfl
  refine ⟨_, h.reached.step (.session hfuture (h.stop.symm ▸ hstep)), h.main, h.stop, h.collected, v,
    hv, hne, ?_⟩
  show s.sessions.set 1 w' = [v, w']
  rw [hsessions]
  rfl

theorem SecondInFlight.cutOff {s : State} {w : ChatSession} (h : SecondInFlight s w)
    (hw : w.Ended) : s.CutOff := by
  obtain ⟨v, hv, -, hsessions⟩ := h.sessions
  refine ⟨.inl h.main, ?_⟩
  rw [hsessions]
  intro u hu
  rcases List.mem_cons.mp hu with rfl | hu
  · exact .inl hv
  · rwa [List.mem_singleton.mp hu]

/-- If the request in flight fails, nothing is lost. -/
theorem complete_iff_oneByOne : ∃ s : State, s.CutOff ∧ s.Complete oneByOne := by
  obtain ⟨s₀, h₀⟩ := secondInFlight_start
  obtain ⟨s, h⟩ := h₀.step (.raise rfl)
  obtain ⟨v, -, hne, hsessions⟩ := h.sessions
  have hcut := h.cutOff (.inr rfl)
  have hsettled : s.Settled := by
    refine ⟨⟨0, ?_, ?_⟩, ?_⟩
    · rw [h.collected]
      exact List.mem_singleton_self 0
    · unfold State.resultsOf
      rw [hsessions]
      exact hne
    · intro i hi
      rw [h.collected, List.mem_singleton] at hi
      unfold State.resultsOf
      rw [hsessions]
      match i, hi with
      | 0, hi => exact absurd rfl hi
      | 1, _ => rfl
      | _ + 2, _ => rfl
  have hfail : s.main ≠ .failed := by
    rw [h.main]
    exact Main.noConfusion
  have hspared := spared_of_settled h.reached hfail fun _ => hsettled
  exact ⟨s, hcut, (complete_iff h.reached hcut).mpr hspared⟩

/-- If it succeeds, its turn is lost. -/
theorem turn_in_flight_is_lost :
    ¬ ∀ (a : Args) (s : State), s.Reachable a → s.CutOff → s.Complete a := by
  intro hall
  obtain ⟨s₀, h₀⟩ := secondInFlight_start
  obtain ⟨s₁, h₁⟩ := h₀.step (.reply rfl ⟨0, 0, 0, ""⟩)
  obtain ⟨s, h⟩ := h₁.step (.check rfl)
  obtain ⟨v, -, -, hsessions⟩ := h.sessions
  have hcut := h.cutOff (.inl rfl)
  have hlost : 1 ∉ s.collected := by
    rw [h.collected]
    decide
  have hresults : s.resultsOf 1 = (((ChatSession.start oneByOne 2).record oneByOne
      ⟨0, 0, 0, ""⟩).check oneByOne true).results := by
    unfold State.resultsOf
    rw [hsessions]
    rfl
  obtain ⟨r, hr⟩ : ∃ r, r ∈ s.resultsOf 1 := by
    rw [hresults]
    exact ⟨_, List.mem_cons_self⟩
  exact not_complete_of_lost (reachable_sound h.reached) hcut hlost hr
    (hall oneByOne s h.reached hcut)

end InfraDemo.LoadTest
