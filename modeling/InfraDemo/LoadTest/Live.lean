import InfraDemo.LoadTest.Kinds

/-!
# Live — the threads beside the main one

At no time are more sessions in flight than `--concurrency`, also after an interrupt or an exception
(`card_inFlight_le`).  The injector is not joined: it may still append while the report is printed, and
what it appends reaches the numbers of the injections and nothing else (`printed_live`).
-/

namespace InfraDemo.LoadTest

open Relation

variable {a : Args} {s s' : State}

/-! ### Sessions in flight -/

/-- The sessions that have neither returned nor raised. -/
def State.inFlight (s : State) : Finset ℕ :=
  (Finset.range s.sessions.length).filter fun i =>
    s.sessions[i]?.any fun w => w.phase ≠ .returned ∧ w.phase ≠ .raised

/-- In the loops the pool is full at most; outside nothing is started or collected. -/
theorem length_sessions_le (h : s.Reachable a) :
    s.sessions.length ≤ s.collected.length + a.concurrency := by
  induction h with
  | init => simp [State.init]
  | @step s s' hreached hstep ih =>
    obtain ⟨p, hstarted, hcollected, hmain⟩ := exists_pool (hreached.step hstep)
    have hcard := p.card_running
    rw [hstarted, hcollected] at hcard
    cases hmain' : s'.main with
    | interrupted | failed =>
      have hsame : s'.sessions.length = s.sessions.length ∧ s'.collected = s.collected := by
        cases hstep with
        | session => exact ⟨List.length_set, rfl⟩
        | wait | collect | newSession | again | complete | leave => cases hmain'
        | _ => exact ⟨rfl, rfl⟩
      rw [hsame.1, hsame.2]
      exact ih
    | head | batch | starting | drain | left =>
      rw [hmain'] at hmain
      simp only [Main.Fits] at hmain
      omega

/-- A session that was collected has returned. -/
theorem inFlight_subset_running (h : s.Sound a) {p : Pool} (hp : s.Models a p) :
    s.inFlight ⊆ p.running := by
  obtain ⟨hstarted, hcollected, -⟩ := hp
  intro i hi
  obtain ⟨hlt, hopen⟩ := Finset.mem_filter.mp hi
  refine ((p.cover i).mp (by rw [hstarted]; exact Finset.mem_range.mp hlt)).resolve_right ?_
  intro hc
  obtain ⟨w, hw, hreturned⟩ := h.returned i (hcollected ▸ hc)
  rw [hw] at hopen
  simp [hreturned] at hopen

theorem card_running_le (h : s.Reachable a) {p : Pool} (hp : s.Models a p) :
    p.running.card ≤ a.concurrency := by
  have hcard := p.card_running
  have hlen := length_sessions_le h
  rw [← hp.started, ← hp.collected] at hlen
  omega

/-- **The load is bounded**: at most `--concurrency` sessions are in flight. -/
theorem card_inFlight_le (h : s.Reachable a) : s.inFlight.card ≤ a.concurrency := by
  obtain ⟨p, hp⟩ := exists_pool h
  have hsubset := inFlight_subset_running (reachable_sound h) hp
  exact (Finset.card_le_card hsubset).trans (card_running_le h hp)

/-- The second session is in flight when the run is interrupted. -/
theorem card_inFlight_le_oneByOne : ∃ s : State, s.main = .interrupted ∧ 1 ∈ s.inFlight ∧
    s.inFlight.card ≤ 1 := by
  obtain ⟨s, h⟩ := secondInFlight_start
  obtain ⟨v, -, -, hsessions⟩ := h.sessions
  refine ⟨s, h.main, ?_, card_inFlight_le h.reached⟩
  unfold State.inFlight
  rw [hsessions, Finset.mem_filter]
  exact ⟨Finset.mem_range.mpr Nat.one_lt_two, rfl⟩

/-! ### Printing while the injector runs -/

/-- The end of the script with a list that may grow meanwhile: what it is at the test, at the start of
the sort, which copies it, and at the end of the comprehensions for the chats and the injections. -/
def printLive (tested sorted chats injects : List Row) : Output :=
  if tested = [] then .noResults
  else .printed (sorted.mergeSort (Row.le .chunkedPrefill)) (do
    let chat ← latency (ttftsOf .chat chats)
    if ttftsOf .inject injects = [] then some (.byType chat none)
    else do
      let inject ← latency (ttftsOf .inject injects)
      some (.byType chat (some inject)))

/-- What a stretch of a run behind the loops adds. -/
structure Late (s s' : State) (late : List Row) : Prop where
  rows : s'.allResults = s.allResults ++ late
  inject : ∀ r ∈ late, r.type = some .inject
  outside : ¬ s'.main.InLoop
  stop : s.stopEvent = true →
    s'.stopEvent = true ∧ late.length + s'.injecting.toNat ≤ s.injecting.toNat

theorem late_step (hs : s.Step a s') (hmain : ¬ s.main.InLoop) : ∃ late, Late s s' late := by
  have hnil : ∀ t : State, t.allResults = s.allResults → t.main = s.main →
      (s.stopEvent = true → t.stopEvent = true ∧ t.injecting.toNat ≤ s.injecting.toNat) →
      Late s t [] := by
    intro t hrows hmain' hstop
    refine ⟨by rw [hrows, List.append_nil], fun r hr => absurd hr List.not_mem_nil, ?_, fun h => ?_⟩
    · rw [hmain']
      exact hmain
    · rw [List.length_nil, Nat.zero_add]
      exact hstop h
  cases hs with
  | session => exact ⟨[], hnil _ rfl rfl fun h => ⟨h, le_rfl⟩⟩
  | fire injects running => exact ⟨[], hnil _ rfl rfl fun h => by rw [running] at h; cases h⟩
  | misfire busy => exact ⟨[], hnil _ rfl rfl fun h => ⟨h, Nat.zero_le _⟩⟩
  | inject busy reply =>
    refine ⟨[injectRow s.injectId reply], rfl, fun r hr => ?_, hmain, fun h => ⟨h, ?_⟩⟩
    · rw [List.mem_singleton.mp hr]
      rfl
    · rw [busy]
      rfl
  | interrupt loop => exact absurd loop hmain
  | fail loop =>
    rcases loop with h | h <;> rw [h] at hmain <;> exact absurd trivial hmain
  | wait h | collect h | newSession h | again h | complete h | leave h =>
    rw [h] at hmain
    exact absurd trivial hmain

theorem late_run (h : ReflTransGen (State.Step a) s s') (hmain : ¬ s.main.InLoop) :
    ∃ late, Late s s' late := by
  induction h with
  | refl =>
    refine ⟨[], (List.append_nil _).symm, fun r hr => absurd hr List.not_mem_nil, hmain, fun h => ?_⟩
    exact ⟨h, (Nat.zero_add _).le⟩
  | @tail t t' _ hstep ih =>
    obtain ⟨late, hrows, hinject, hout, hstop⟩ := ih
    obtain ⟨more, hrows', hinject', hout', hstop'⟩ := late_step hstep hout
    refine ⟨late ++ more, ?_, ?_, hout', fun h => ?_⟩
    · rw [hrows', hrows, List.append_assoc]
    · intro r hr
      exact (List.mem_append.mp hr).elim (hinject r) (hinject' r)
    · obtain ⟨ht, hle⟩ := hstop h
      obtain ⟨ht', hle'⟩ := hstop' ht
      rw [List.length_append]
      exact ⟨ht', by omega⟩

theorem ttftsOf_chat_late {late : List Row} (h : Late s s' late) :
    ttftsOf .chat s'.allResults = ttftsOf .chat s.allResults := by
  have hnone : late.filter (fun r => r.type = some .chat) = [] := by
    rw [List.filter_eq_nil_iff]
    intro r hr
    simp [h.inject r hr]
  unfold ttftsOf
  rw [h.rows, List.filter_append, hnone, List.append_nil]

/-- **Printing beside the injector.**  Wherever the injector gets its results in between, the table and
the numbers of the chats are those of one moment; the numbers of the injections may be of `late` rows
more, of one at most after an interrupt. -/
theorem printed_live {s₁ s₂ s₃ : State} (hmain : ¬ s.main.InLoop)
    (h₁ : ReflTransGen (State.Step a) s s₁) (h₂ : ReflTransGen (State.Step a) s₁ s₂)
    (h₃ : ReflTransGen (State.Step a) s₂ s₃) :
    ∃ late, s₃.allResults = s₁.allResults ++ late ∧ (∀ r ∈ late, r.type = some .inject) ∧
      (s.stopEvent = true → late.length ≤ 1) ∧
      printLive s.allResults s₁.allResults s₂.allResults s₃.allResults =
        if s.allResults = [] then .noResults
        else .printed (s₁.allResults.mergeSort (Row.le .chunkedPrefill))
          (summary .chunkedPrefill s₃.allResults) := by
  obtain ⟨_, hlate₁⟩ := late_run h₁ hmain
  obtain ⟨_, hlate₂⟩ := late_run h₂ hlate₁.outside
  obtain ⟨_, hlate₃⟩ := late_run h₃ hlate₂.outside
  obtain ⟨late, hlate⟩ := late_run (h₂.trans h₃) hlate₁.outside
  refine ⟨late, hlate.rows, hlate.inject, fun hstop => ?_, ?_⟩
  · obtain ⟨hstop₁, hle₁⟩ := hlate₁.stop hstop
    obtain ⟨-, hle⟩ := hlate.stop hstop₁
    have hone := Bool.toNat_le s.injecting
    omega
  · unfold printLive
    dsimp only [summary]
    rw [ttftsOf_chat_late hlate₃]

/-- The loop has ended while an injection runs. -/
theorem left_injecting : ∃ s : State, s.Reachable mixedOnce ∧ s.main = .left ∧
    s.injecting = true ∧ s.allResults ≠ [] := by
  have hreply := (State.Reachable.init (a := mixedOnce)).step
    (.session (i := 0) rfl (.reply rfl ⟨40, 10, 3, "yes"⟩))
  have hcheck := hreply.step (.session (i := 0) rfl (.check rfl))
  have hfire := hcheck.step (.fire ⟨rfl, rfl⟩ rfl rfl)
  have hcomplete := hfire.step
    (.complete (i := 0) rfl (show 0 ∈ Finset.range 1 by decide) rfl rfl)
  exact ⟨_, hcomplete.step (.leave rfl), rfl, rfl, List.cons_ne_nil _ _⟩

/-- Its result comes in after the table was sorted. -/
theorem printed_live_mixedOnce : ∃ s s' : State, s.allResults.length < s'.allResults.length ∧
    printLive s.allResults s.allResults s.allResults s'.allResults =
      .printed (s.allResults.mergeSort (Row.le .chunkedPrefill))
        (summary .chunkedPrefill s'.allResults) := by
  obtain ⟨s, -, hmain, hbusy, hne⟩ := left_injecting
  have hinject : s.Step mixedOnce _ := .inject hbusy ⟨900, 10, 3, "cold"⟩
  obtain ⟨-, -, -, -, hprinted⟩ :=
    printed_live (by rw [hmain]; exact id) .refl .refl (.single hinject)
  rw [if_neg hne] at hprinted
  refine ⟨s, _, ?_, hprinted⟩
  rw [List.length_append]
  exact Nat.lt_succ_self _

end InfraDemo.LoadTest
