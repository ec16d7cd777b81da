import Mathlib.Algebra.Order.Ring.Rat
import InfraDemo.Lib.Supervisor
import InfraDemo.LoadTest.Live

/-!
# Ramp — the stages of the ramp load test

`run_stage` of `ramp_load_test.py` runs `load_test_multi_session.py --continuous` with the next
number of sessions, interrupts it after `--duration` seconds and kills it 15 seconds later: a
`Supervisor` whose children are runs of the script.  A stage overlaps with the next only as long as
it survives its kill, and a report is one of a run that the interrupt cut off (`stages_apart`), so
the loads add up for killed runs only (`load_le`).
-/

namespace InfraDemo.LoadTest.Ramp

open Relation Supervisor

/-- The arguments of the command line; URL and model are handed on. -/
structure Plan where
  stages : List ℤ
  duration : ℤ
  turns : ℤ
  thinkTime : ℚ

/-- What the script reads of `cmd`. -/
def Plan.cmd (p : Plan) (concurrency : ℤ) : Args where
  script := .multiSession
  turns := p.turns
  concurrency := concurrency.toNat
  thinkTime := p.thinkTime
  continuous := true
  mixed := false

/-! ### The script as a child -/

/-- A run of the script: before its `try` block, from there on, and over. -/
inductive Process where
  | starting
  | loading (s : LoadTest.State)
  | gone (out : Output)

/-- The sessions were not all submitted, and the run ends with an exception. -/
def cutShort (a : Args) (k : ℕ) : LoadTest.State :=
  { State.init a with
    sessions := (State.init a).sessions.take k
    active := Finset.range k
    sessionCounter := k
    main := .failed }

/-- What the script does on its own.  A `ThreadPoolExecutor` has one worker at least; the end of the
`with` block waits for all sessions. -/
inductive Process.Step (p : Plan) (concurrency : ℤ) : Process → Process → Prop where
  | refuse (nonpos : concurrency ≤ 0) : Step p concurrency .starting (.gone .traceback)
  | enter (pos : 0 < concurrency) :
      Step p concurrency .starting (.loading (State.init (p.cmd concurrency)))
  | load {s s' : LoadTest.State} (step : s.Step (p.cmd concurrency) s')
      (uninterrupted : s'.main = .interrupted → s.main = .interrupted) :
      Step p concurrency (.loading s) (.loading s')
  | leave {s : LoadTest.State} (outside : ¬ s.main.InLoop) (ended : ∀ w ∈ s.sessions, w.Ended) :
      Step p concurrency (.loading s) (.gone (s.output (p.cmd concurrency)))

/-- `SIGINT`: outside of the `try` block it ends the script without a report. -/
inductive Process.Interrupt (p : Plan) (concurrency : ℤ) : Process → Process → Prop where
  | early : Interrupt p concurrency .starting (.gone .traceback)
  | entering {k : ℕ} (pos : 0 < concurrency) (submitted : k ≤ concurrency.toNat) :
      Interrupt p concurrency .starting (.loading (cutShort (p.cmd concurrency) k))
  | loop {s : LoadTest.State} (loop : s.main.InLoop) : Interrupt p concurrency (.loading s)
      (.loading { s with stopEvent := true, main := .interrupted })
  | outside {s : LoadTest.State} (outside : ¬ s.main.InLoop) :
      Interrupt p concurrency (.loading s) (.loading { s with main := .failed })

/-- `load_test_multi_session.py` as it is run for a stage. -/
def script (p : Plan) : Machine ℤ Process where
  start _ := .starting
  Step := Process.Step p
  Signal := Process.Interrupt p
  Done _ x := ∃ out, x = .gone out

/-- The ramp, with the processes it has launched. -/
abbrev Stages : Type := Supervisor.State ℤ Process ℚ

/-- One step of `run_stage`, of a process or of time. -/
abbrev Plan.Step (p : Plan) : Stages → Stages → Prop := Supervisor.Step (script p) p.duration 15

/-- The ramp can get there from its start at `begin`. -/
def Plan.Reachable (p : Plan) (begin : ℚ) (s : Stages) : Prop :=
  ReflTransGen p.Step (.init p.stages begin) s

def Process.inFlight : Process → ℕ
  | .loading s => s.inFlight.card
  | .starting | .gone _ => 0

/-- The sessions in flight of all processes that are alive. -/
def load : List (Child ℤ Process ℚ) → ℕ
  | [] => 0
  | c :: older =>
    (match c.fate with
      | .alive => c.state.inFlight
      | .exited _ | .died _ => 0) + load older

/-- The sessions of the stages that are still alive after their kill. -/
def lingering : List (Child ℤ Process ℚ) → ℕ
  | [] => 0
  | c :: older =>
    (match c.fate, c.killed with
      | .alive, some _ => c.job.toNat
      | _, _ => 0) + lingering older

/-! ### What a run of the script comes to -/

section Process

variable {a : Args} {s s' : LoadTest.State} {p : Plan} {concurrency : ℤ} {b : Bool} {x : Process}

/-- With `--continuous` the loop is left by an interrupt or an exception only. -/
theorem continuous_main (ha : a.continuous = true) (h : s.Reachable a) :
    s.main ≠ .left ∧ ∀ rest, s.main ≠ .drain rest := by
  induction h with
  | init =>
    have hmain : (State.init a).main = .head := if_pos ha
    rw [hmain]
    exact ⟨Main.noConfusion, fun _ => Main.noConfusion⟩
  | step _ hstep ih =>
    cases hstep with
    | session | fire | inject | misfire => exact ih
    | complete drain | leave drain => exact absurd drain (ih.2 _)
    | wait | collect | newSession | again | fail | interrupt =>
      exact ⟨Main.noConfusion, fun _ => Main.noConfusion⟩

/-- Outside the loops no session is started, and none that has ended goes on. -/
theorem inFlight_step (hs : s.Step a s') (hmain : ¬ s.main.InLoop) : s'.inFlight ⊆ s.inFlight := by
  cases hs with
  | @session i w w' future step =>
    intro j hj
    obtain ⟨hlt, hopen⟩ := Finset.mem_filter.mp hj
    rw [List.length_set] at hlt
    refine Finset.mem_filter.mpr ⟨hlt, ?_⟩
    by_cases hij : i = j
    · subst hij
      rw [future, Option.any_some, decide_eq_true_eq]
      exact not_or.mp fun hended => ChatSession.Ended.no_step hended step
    · rwa [List.getElem?_set_ne hij] at hopen
  | fire | inject | misfire => exact Finset.Subset.refl _
  | interrupt loop => exact absurd loop hmain
  | fail loop =>
    rcases loop with h | h <;> rw [h] at hmain <;> exact absurd trivial hmain
  | wait h | collect h | newSession h | again h | complete h | leave h =>
    rw [h] at hmain
    exact absurd trivial hmain

theorem card_inFlight_cutShort (a : Args) (k : ℕ) : (cutShort a k).inFlight.card ≤ k := by
  have hlen : (cutShort a k).sessions.length ≤ k := by
    show ((State.init a).sessions.take k).length ≤ k
    rw [List.length_take]
    exact min_le_left k _
  refine (Finset.card_filter_le _ _).trans ?_
  rwa [Finset.card_range]

/-- The load is bounded, and the run has failed or is one of the collector; then it is over by an
interrupt only. -/
def Process.Good (p : Plan) (concurrency : ℤ) (interrupted : Bool) : Process → Prop
  | .starting => True
  | .loading s => s.inFlight.card ≤ concurrency.toNat ∧ (s.main = .failed ∨
      s.Reachable (p.cmd concurrency) ∧ (s.main = .interrupted → interrupted = true))
  | .gone out => out = .traceback ∨ interrupted = true ∧ ∃ s : LoadTest.State,
      s.Reachable (p.cmd concurrency) ∧ s.main = .interrupted ∧ (∀ w ∈ s.sessions, w.Ended) ∧
      out = printResults .multiSession s.allResults

theorem good_of_reachable (h : s.Reachable (p.cmd concurrency))
    (hmain : s.main = .interrupted → b = true) : Process.Good p concurrency b (.loading s) := by
  obtain ⟨pool, hp⟩ := exists_pool h
  have hsubset := inFlight_subset_running (reachable_sound h) hp
  exact ⟨(Finset.card_le_card hsubset).trans (card_running_le h hp), .inr ⟨h, hmain⟩⟩

theorem process_step {y : Process} (hs : Process.Step p concurrency x y)
    (h : x.Good p concurrency b) : y.Good p concurrency b := by
  cases hs with
  | refuse => exact .inl rfl
  | enter pos =>
    refine good_of_reachable .init fun hmain => ?_
    have hhead : (State.init (p.cmd concurrency)).main = .head := rfl
    rw [hhead] at hmain
    cases hmain
  | @load s s' step uninterrupted =>
    obtain ⟨hcard, hfailed | ⟨hreached, hint⟩⟩ := h
    · have hout : ¬ s.main.InLoop := by
        rw [hfailed]
        exact id
      exact ⟨(Finset.card_le_card (inFlight_step step hout)).trans hcard,
        .inl (step_failed step hfailed)⟩
    · exact good_of_reachable (hreached.step step) fun hmain => hint (uninterrupted hmain)
  | @leave s outside ended =>
    obtain ⟨-, hfailed | ⟨hreached, hint⟩⟩ := h
    · exact .inl (if_pos hfailed)
    · obtain ⟨hleft, hdrain⟩ := continuous_main rfl hreached
      cases hmain : s.main with
      | head | batch | starting | drain =>
        rw [hmain] at outside
        exact absurd trivial outside
      | left => exact absurd hmain hleft
      | interrupted =>
        have hne : s.main ≠ .failed := by
          rw [hmain]
          exact Main.noConfusion
        exact .inr ⟨hint hmain, s, hreached, hmain, ended, if_neg hne⟩
      | failed => exact .inl (if_pos hmain)

theorem process_interrupt {y : Process} (hs : Process.Interrupt p concurrency x y)
    (h : x.Good p concurrency false) : y.Good p concurrency true := by
  cases hs with
  | early => exact .inl rfl
  | entering pos submitted => exact ⟨(card_inFlight_cutShort _ _).trans submitted, .inl rfl⟩
  | @loop s loop =>
    obtain ⟨-, hfailed | ⟨hreached, -⟩⟩ := h
    · rw [hfailed] at loop
      exact loop.elim
    · exact good_of_reachable (hreached.step (.interrupt loop)) fun _ => rfl
  | outside => exact ⟨h.1, .inl rfl⟩

theorem good_of_reaches (h : (script p).Reaches concurrency b x) : x.Good p concurrency b := by
  induction h with
  | start => trivial
  | step _ hs ih => exact process_step hs ih
  | signal _ hs ih => exact process_interrupt hs ih

end Process

/-! ### The stages -/

section Stages

variable {p : Plan} {begin : ℚ} {s : Stages}

theorem stages_sound (h : p.Reachable begin s) :
    s.Sound (script p) (p.duration : ℚ) 15 p.stages :=
  Supervisor.reachable_sound (script p) (p.duration : ℚ) 15 h

/-- **The stages are apart.**  They are those of the plan in its order, and each is over before the
next is launched, or was killed before that.  A run of the script is interrupted after `--duration`
seconds only, and killed 15 seconds after that only.  What it prints is no report, or that of a run
the interrupt cut off. -/
theorem stages_apart (h : p.Reachable begin s) :
    (s.children.map Child.job).reverse ++ s.todo = p.stages ∧ s.children.Pairwise Child.After ∧
    ∀ c ∈ s.children,
      (∀ t, c.signalled = some t → c.launched + p.duration ≤ t) ∧
      (∀ t, c.killed = some t → ∃ t₀, c.signalled = some t₀ ∧ t₀ + 15 ≤ t) ∧
      (∀ t, c.fate = .died t → ∃ t₀, c.killed = some t₀ ∧ t₀ ≤ t) ∧
      (∀ t, c.fate = .exited t → ∃ out, c.state = .gone out) ∧
      ∀ out, c.state = .gone out → out = .traceback ∨ c.signalled ≠ none ∧
        ∃ st : LoadTest.State, st.Reachable (p.cmd c.job) ∧ st.main = .interrupted ∧
          (∀ w ∈ st.sessions, w.Ended) ∧ out = printResults .multiSession st.allResults := by
  have hsound := stages_sound h
  refine ⟨hsound.jobs, hsound.apart, fun c hc => ?_⟩
  have hchild := hsound.children c hc
  refine ⟨hchild.signalled, hchild.killed, hchild.died, hchild.exited, fun out hout => ?_⟩
  have hgood := good_of_reaches hchild.run
  rw [hout] at hgood
  exact hgood.imp_right fun ⟨hreacted, hreport⟩ => ⟨hchild.reacted hreacted, hreport⟩

/-- A run of the script has no more sessions in flight than its stage. -/
theorem inFlight_le {now : ℚ} {c : Child ℤ Process ℚ}
    (h : c.Sound (script p) (p.duration : ℚ) 15 now) : c.state.inFlight ≤ c.job.toNat := by
  have hgood := good_of_reaches h.run
  cases hstate : c.state with
  | starting | gone => exact Nat.zero_le _
  | loading st =>
    rw [hstate] at hgood
    exact hgood.1

theorem load_le_lingering {now : ℚ} {children : List (Child ℤ Process ℚ)}
    (h : ∀ c ∈ children, c.Sound (script p) (p.duration : ℚ) 15 now)
    (hover : ∀ c ∈ children, c.Over) : load children ≤ lingering children := by
  induction children with
  | nil => exact le_rfl
  | cons c older ih =>
    obtain ⟨hc, holder⟩ := List.forall_mem_cons.mp h
    obtain ⟨hcover, hover⟩ := List.forall_mem_cons.mp hover
    refine add_le_add ?_ (ih holder hover)
    cases hfate : c.fate with
    | exited | died => exact Nat.zero_le _
    | alive =>
      obtain ⟨t, ht⟩ := Option.ne_none_iff_exists'.mp (hcover hfate)
      rw [ht]
      exact inFlight_le hc

theorem lingering_eq_zero {children : List (Child ℤ Process ℚ)}
    (h : ∀ c ∈ children, c.killed = none ∨ c.fate ≠ .alive) : lingering children = 0 := by
  induction children with
  | nil => rfl
  | cons c older ih =>
    obtain ⟨hc, holder⟩ := List.forall_mem_cons.mp h
    unfold lingering
    rw [ih holder]
    rcases hc with hkilled | hfate
    · rw [hkilled]
      cases c.fate <;> rfl
    · cases hended : c.fate with
      | alive => exact absurd hended hfate
      | exited | died => rfl

/-- **Loads add up for killed runs only**: in all runs of the script together, at most as many
sessions are in flight as the last stage has and those that are still alive after their kill. -/
theorem load_le (h : p.Reachable begin s) :
    load s.children ≤ (s.children.head?.elim 0 fun c => c.job.toNat) + lingering s.children.tail ∧
    ((∀ c ∈ s.children.tail, c.killed = none ∨ c.fate ≠ .alive) →
      load s.children ≤ s.children.head?.elim 0 fun c => c.job.toNat) := by
  have hsound := stages_sound h
  have hle : load s.children ≤
      (s.children.head?.elim 0 fun c => c.job.toNat) + lingering s.children.tail := by
    have hall := hsound.children
    cases hchildren : s.children with
    | nil => exact le_rfl
    | cons c older =>
      rw [hchildren] at hall
      obtain ⟨hc, holder⟩ := List.forall_mem_cons.mp hall
      refine add_le_add ?_ (load_le_lingering holder (hsound.older_over hchildren))
      cases hfate : c.fate with
      | exited | died => exact Nat.zero_le _
      | alive => exact inFlight_le hc
  refine ⟨hle, fun hnone => ?_⟩
  rwa [lingering_eq_zero hnone, add_zero] at hle

/-- **The ramp ends.**  From every state it can get to its end, also if no run of the script does
anything more; and if time passes in its waits only, no stage takes more than `--duration` and 15
seconds. -/
theorem ramp_ends (p : Plan) (begin : ℚ) :
    (∀ s : Stages, p.Reachable begin s → ∃ s',
      ReflTransGen (Alone (script p) (p.duration : ℚ) 15) s s' ∧ s'.Finished ∧
      (s'.children.map Child.job).reverse = p.stages) ∧
    ∀ s : Stages, ReflTransGen (Prompt (script p) (p.duration : ℚ) 15) (.init p.stages begin) s →
      s.now ≤ begin + p.stages.length • (max (p.duration : ℚ) 0 + 15) := by
  constructor
  · intro s hs
    obtain ⟨s', hrun, hsound, hfinished⟩ := finishes (stages_sound hs)
    have hjobs := hsound.jobs
    rw [hfinished.2, List.append_nil] at hjobs
    exact ⟨s', hrun, hfinished, hjobs⟩
  · intro s hs
    exact prompt_budget (by norm_num) hs

end Stages

/-! ### One stage -/

/-- One stage of five minutes, with one session at a time of one turn. -/
def once : Plan where
  stages := [1]
  duration := 300
  turns := 1
  thinkTime := 0

/-- The run of the stage has collected its first session. -/
theorem once_collects (reply : Inference) : ∃ st : LoadTest.State,
    ReflTransGen ((script once).Step 1) .starting (.loading st) ∧ st.main.InLoop ∧
      st.allResults ≠ [] ∧ ∀ w ∈ st.sessions, w.Ended := by
  have henter : ReflTransGen ((script once).Step 1) .starting _ := .single (.enter Int.one_pos)
  have hreply := henter.tail (.load (.session (i := 0) rfl (.reply rfl reply)) Main.noConfusion)
  have hcheck := hreply.tail (.load (.session (i := 0) rfl (.check rfl)) Main.noConfusion)
  have hzero : 0 ∈ Finset.range 1 := by decide
  have hwait := hcheck.tail
    (.load (.wait rfl (Finset.Subset.refl _) ⟨0, hzero⟩) Main.noConfusion)
  have hcollect := hwait.tail (.load (.collect (i := 0) rfl hzero rfl rfl) Main.noConfusion)
  refine ⟨_, hcollect, trivial, List.cons_ne_nil _ _, fun w hw => ?_⟩
  rw [List.mem_singleton.mp hw]
  exact .inl rfl

/-- Interrupted then, it reports. -/
theorem interrupted_reports {st : LoadTest.State} (hne : st.allResults ≠ [])
    (hended : ∀ w ∈ st.sessions, w.Ended) : ∃ table summary, (script once).Step 1
      (.loading { st with stopEvent := true, main := .interrupted })
      (.gone (.printed table summary)) := by
  have hleave : (script once).Step 1 _ _ := Process.Step.leave
    (s := { st with stopEvent := true, main := .interrupted }) id hended
  have hout : State.output (once.cmd 1) { st with stopEvent := true, main := .interrupted } =
      .printed _ _ := (if_neg Main.noConfusion).trans (if_neg hne)
  rw [hout] at hleave
  exact ⟨_, _, hleave⟩

/-- The stage is interrupted after five minutes, reports and is over. -/
theorem once_reports : ∃ s : Stages, once.Reachable 0 s ∧ s.Finished ∧
    ∃ c table summary, s.children = [c] ∧ c.state = .gone (.printed table summary) := by
  obtain ⟨st, hrun, hloop, hne, hended⟩ := once_collects ⟨40, 10, 3, "yes"⟩
  obtain ⟨table, summary, hreport⟩ := interrupted_reports hne hended
  have hlaunch : ReflTransGen once.Step (.init once.stages 0) _ :=
    .single (.alone (.own (.launch rfl rfl)))
  have hcollect := hlaunch.trans (run_newest rfl rfl hrun)
  have htick := hcollect.tail (.alone (.tick (show (0 : ℚ) ≤ 300 by norm_num)))
  have hexpire := htick.tail
    (.alone (.own (.expire rfl (show (0 : ℚ) + (300 : ℤ) ≤ 300 by norm_num))))
  have hsignal := hexpire.tail (.alone (.own (.signal rfl rfl)))
  have hreact := hsignal.tail
    (step_newest rfl (.react rfl (Option.some_ne_none _) rfl (.loop hloop)))
  have hgone := hreact.tail (step_newest rfl (.step rfl hreport))
  have hexit := hgone.tail (step_newest rfl (.exit rfl ⟨_, rfl⟩))
  have hreap := hexit.tail (.alone (.own (.reap (.inr rfl) rfl nofun)))
  exact ⟨_, hreap, ⟨rfl, rfl⟩, _, table, summary, rfl, rfl⟩

theorem stages_apart_once : ∃ s : Stages, once.Reachable 0 s ∧ ∃ c ∈ s.children, ∃ table summary,
    c.state = .gone (.printed table summary) ∧ c.signalled ≠ none := by
  obtain ⟨s, hs, -, c, table, summary, hchildren, hgone⟩ := once_reports
  have hc : c ∈ s.children := by
    rw [hchildren]
    exact List.mem_singleton_self c
  obtain ⟨-, -, hall⟩ := stages_apart hs
  obtain ⟨-, -, -, -, hout⟩ := hall c hc
  exact ⟨s, hs, c, hc, table, summary, hgone, ((hout _ hgone).resolve_left nofun).1⟩

/-- Two stages of one session each. -/
def twice : Plan where
  stages := [1, 1]
  duration := 300
  turns := 1
  thinkTime := 0

/-- The first hangs until it is killed, and is still alive when the second has begun. -/
theorem twice_overlap : ∃ s : Stages, twice.Reachable 0 s ∧ load s.children = 2 ∧
    (s.children.head?.elim 0 fun c => c.job.toNat) = 1 ∧ lingering s.children.tail = 1 := by
  have hlaunch : ReflTransGen twice.Step (.init twice.stages 0) _ :=
    .single (.alone (.own (.launch rfl rfl)))
  have henter : ReflTransGen ((script twice).Step 1) .starting _ := .single (.enter Int.one_pos)
  have hload := hlaunch.trans (run_newest rfl rfl henter)
  have htick := hload.tail (.alone (.tick (show (0 : ℚ) ≤ 300 by norm_num)))
  have hexpire := htick.tail
    (.alone (.own (.expire rfl (show (0 : ℚ) + (300 : ℤ) ≤ 300 by norm_num))))
  have hsignal := hexpire.tail (.alone (.own (.signal rfl rfl)))
  have hgrace := hsignal.tail (.alone (.tick (show (300 : ℚ) ≤ 315 by norm_num)))
  have hgiveUp := hgrace.tail (.alone (.own (.giveUp rfl (show (300 : ℚ) + 15 ≤ 315 by norm_num))))
  have hkill := hgiveUp.tail (.alone (.own (.kill rfl rfl)))
  have hnext := hkill.tail (.alone (.own (.launch rfl rfl)))
  exact ⟨_, hnext.trans (run_newest rfl rfl henter), rfl, rfl, rfl⟩

/-- Then both sessions are in flight, as many as the bound allows. -/
theorem load_le_twice : ∃ s : Stages, twice.Reachable 0 s ∧ load s.children = 2 ∧
    (s.children.head?.elim 0 fun c => c.job.toNat) + lingering s.children.tail = 2 ∧
    load s.children ≤
      (s.children.head?.elim 0 fun c => c.job.toNat) + lingering s.children.tail := by
  obtain ⟨s, hs, hload, hlast, hlingering⟩ := twice_overlap
  exact ⟨s, hs, hload, by rw [hlast, hlingering], (load_le hs).1⟩

end InfraDemo.LoadTest.Ramp
