import Mathlib.Logic.Relation
import InfraDemo.Lib.Pool
import InfraDemo.LoadTest.Session

/-!
# Collector — the main thread of the load generators

Main keeps `concurrency` sessions running and appends the results of those that are done to one list;
an injector thread appends its own.  Main, the sessions and the injector make their steps in any
order.  A future is the number of its `submit`; `sessions` holds the call behind each.

The collector is a `Pool` of sessions (`exists_pool`): a session that was started runs or was
collected, once.  `session_pool` says what that means at the heads of the two loops.
-/

namespace InfraDemo.LoadTest

/-- Where the main thread is: at the head of `while True`, in the loop over the done futures, between
the two statements of its body, in the loop over `as_completed`, behind the loops, in the handler of
`KeyboardInterrupt` or beyond, or on its way out with the exception of a session. -/
inductive Main where
  | head
  | batch (done : Finset ℕ)
  | starting (done : Finset ℕ)
  | drain (rest : Finset ℕ)
  | left
  | interrupted
  | failed
  deriving DecidableEq

/-- In the `try` block. -/
def Main.InLoop : Main → Prop
  | .left | .interrupted | .failed => False
  | _ => True

structure State where
  sessions : List ChatSession
  active : Finset ℕ
  allResults : List Row
  sessionCounter : ℕ
  stopEvent : Bool
  main : Main
  /-- the futures whose results were appended, in order; no variable of the source -/
  collected : List ℕ
  injectId : ℕ
  injecting : Bool

variable (a : Args)

/-- The start of the `try` block: `new_session` was called `concurrency` times. -/
def State.init : State where
  sessions := (List.range a.concurrency).map fun i => ChatSession.start a (i + 1)
  active := Finset.range a.concurrency
  allResults := []
  sessionCounter := a.concurrency
  stopEvent := false
  main := if a.continuous then .head else .drain (Finset.range a.concurrency)
  collected := []
  injectId := 0
  injecting := false

/-- The result of an injection. -/
def injectRow (injectId : ℕ) (reply : Inference) : Row where
  session := .inject injectId
  turn := 1
  ttftMs := reply.ttftMs
  tpotMs := reply.tpotMs
  totalTokens := reply.totalTokens
  promptMessages := 1
  type := some .inject

/-- There is an injector. -/
def Args.Injects : Prop := a.script = .chunkedPrefill ∧ a.mixed = true

/-- `all_results.extend(f.result())` -/
def State.extend (s : State) (i : ℕ) (w : ChatSession) (main : Main) : State :=
  { s with
    allResults := s.allResults ++ w.results
    collected := s.collected ++ [i]
    main }

/-- `active.add(new_session(pool))` -/
def State.newSession (s : State) (main : Main) : State :=
  { s with
    sessions := s.sessions ++ [ChatSession.start a (s.sessionCounter + 1)]
    sessionCounter := s.sessionCounter + 1
    active := insert s.sessions.length s.active
    main }

/-- One step of a session, the main thread or the injector.  `wait` returns a partition of its
argument with a non-empty done set, `as_completed` yields each future once; a result is taken of a
session that has returned, and the exception of one that raised.  An interrupt inside `new_session`
is one before it or after it, as nothing reads the counter any more. -/
inductive State.Step (s : State) : State → Prop where
  | session {i : ℕ} {w w' : ChatSession} (future : s.sessions[i]? = some w)
      (step : w.Step a s.stopEvent w') : Step s { s with sessions := s.sessions.set i w' }
  | wait {done : Finset ℕ} (head : s.main = .head) (subset : done ⊆ s.active)
      (nonempty : done.Nonempty) : Step s { s with active := s.active \ done, main := .batch done }
  | collect {done : Finset ℕ} {i : ℕ} {w : ChatSession} (batch : s.main = .batch done)
      (mem : i ∈ done) (future : s.sessions[i]? = some w) (returned : w.phase = .returned) :
      Step s (s.extend i w (.starting (done.erase i)))
  | newSession {done : Finset ℕ} (starting : s.main = .starting done) :
      Step s (s.newSession a (.batch done))
  | again (batch : s.main = .batch ∅) : Step s { s with main := .head }
  | complete {rest : Finset ℕ} {i : ℕ} {w : ChatSession} (drain : s.main = .drain rest)
      (mem : i ∈ rest) (future : s.sessions[i]? = some w) (returned : w.phase = .returned) :
      Step s (s.extend i w (.drain (rest.erase i)))
  | leave (drain : s.main = .drain ∅) : Step s { s with main := .left }
  | fail {pending : Finset ℕ} {i : ℕ} {w : ChatSession}
      (loop : s.main = .batch pending ∨ s.main = .drain pending) (mem : i ∈ pending)
      (future : s.sessions[i]? = some w) (raised : w.phase = .raised) :
      Step s { s with main := .failed }
  | interrupt (loop : s.main.InLoop) : Step s { s with stopEvent := true, main := .interrupted }
  | fire (injects : a.Injects) (running : s.stopEvent = false) (idle : s.injecting = false) :
      Step s { s with injectId := s.injectId + 1, injecting := true }
  | inject (busy : s.injecting = true) (reply : Inference) :
      Step s { s with
        allResults := s.allResults ++ [injectRow s.injectId reply], injecting := false }
  | misfire (busy : s.injecting = true) : Step s { s with injecting := false }

inductive State.Reachable : State → Prop where
  | init : Reachable (State.init a)
  | step {s s' : State} (reached : Reachable s) (step : s.Step a s') : Reachable s'

/-! ### The pool behind a state -/

variable {a} {s s' : State}

/-- What the main thread's place says about the pool. -/
def Main.Fits (a : Args) (active : Finset ℕ) (p : Pool) : Main → Prop
  | .head => p.running = active ∧ p.running.card = a.concurrency
  | .batch done =>
    p.running = active ∪ done ∧ Disjoint active done ∧ p.running.card = a.concurrency
  | .starting done =>
    p.running = active ∪ done ∧ Disjoint active done ∧ p.running.card + 1 = a.concurrency
  | .drain rest => p.running = rest ∧ p.started = a.concurrency
  | .left => p.running = ∅ ∧ p.started = a.concurrency
  | .interrupted | .failed => True

/-- The state is one of the pool. -/
structure State.Models (a : Args) (s : State) (p : Pool) : Prop where
  started : p.started = s.sessions.length
  collected : p.collected = s.collected
  main : s.main.Fits a s.active p

theorem models_init : (State.init a).Models a (Pool.fresh a.concurrency) := by
  refine ⟨by simp [State.init, Pool.fresh], rfl, ?_⟩
  show Main.Fits a _ _ (if a.continuous then _ else _)
  split_ifs
  · exact ⟨rfl, Finset.card_range _⟩
  · exact ⟨rfl, rfl⟩

/-- **Step**: every step of the program is `start`, `collect` or nothing to the pool. -/
theorem models_step {p : Pool} (hs : s.Step a s') (h : s.Models a p) :
    ∃ p' : Pool, s'.Models a p' := by
  obtain ⟨hstarted, hcollected, hmain⟩ := h
  cases hs with
  | session future step => exact ⟨p, by rw [hstarted, List.length_set], hcollected, hmain⟩
  | @wait done head subset nonempty =>
    rw [head] at hmain
    obtain ⟨hrun, hcard⟩ := hmain
    refine ⟨p, hstarted, hcollected, ?_, Finset.sdiff_disjoint, hcard⟩
    rw [hrun, Finset.sdiff_union_of_subset subset]
  | @collect done i w batch mem future returned =>
    rw [batch] at hmain
    obtain ⟨hrun, hdisj, hcard⟩ := hmain
    have hi : i ∈ p.running := hrun ▸ Finset.mem_union_right _ mem
    have hactive : i ∉ s.active := fun h => Finset.disjoint_left.mp hdisj h mem
    refine ⟨p.collect i hi, hstarted, congrArg (· ++ [i]) hcollected, ?_, ?_, ?_⟩
    · show p.running.erase i = s.active ∪ done.erase i
      rw [hrun, Finset.erase_union_distrib, Finset.erase_eq_of_notMem hactive]
    · exact hdisj.mono_right (Finset.erase_subset i done)
    · rw [p.card_collect hi, hcard]
  | @newSession done starting =>
    rw [starting] at hmain
    obtain ⟨hrun, hdisj, hcard⟩ := hmain
    refine ⟨p.start, by simp [State.newSession, Pool.start, hstarted], hcollected, ?_, ?_, ?_⟩
    · show insert p.started p.running = insert s.sessions.length s.active ∪ done
      rw [hrun, hstarted, Finset.insert_union]
    · show Disjoint (insert s.sessions.length s.active) done
      rw [Finset.disjoint_insert_left, ← hstarted]
      refine ⟨fun h => p.started_notMem ?_, hdisj⟩
      exact hrun ▸ Finset.mem_union_right _ h
    · rw [p.card_start, hcard]
  | again batch =>
    rw [batch] at hmain
    obtain ⟨hrun, -, hcard⟩ := hmain
    exact ⟨p, hstarted, hcollected, hrun.trans (Finset.union_empty _), hcard⟩
  | @complete rest i w drain mem future returned =>
    rw [drain] at hmain
    obtain ⟨hrun, hcard⟩ := hmain
    have hi : i ∈ p.running := hrun ▸ mem
    refine ⟨p.collect i hi, hstarted, congrArg (· ++ [i]) hcollected, ?_, hcard⟩
    show p.running.erase i = rest.erase i
    rw [hrun]
  | leave drain =>
    rw [drain] at hmain
    exact ⟨p, hstarted, hcollected, hmain⟩
  | fail | interrupt => exact ⟨p, hstarted, hcollected, trivial⟩
  | fire | inject | misfire => exact ⟨p, hstarted, hcollected, hmain⟩

/-- **The collector is a pool**: no session is lost and none is collected twice. -/
theorem exists_pool (h : s.Reachable a) : ∃ p : Pool, s.Models a p := by
  induction h with
  | init => exact ⟨_, models_init⟩
  | step _ hstep ih =>
    obtain ⟨p, hp⟩ := ih
    exact models_step hstep hp

/-! ### The results behind a state -/

/-- The list a future gives or will give. -/
def State.resultsOf (s : State) (i : ℕ) : List Row :=
  match s.sessions[i]? with
  | some w => w.results
  | none => []

structure State.Sound (a : Args) (s : State) : Prop where
  ids : s.sessions.map ChatSession.sessionId = (List.range s.sessionCounter).map (· + 1)
  sessions : ∀ w ∈ s.sessions, w.Sound a s.stopEvent
  returned : ∀ i ∈ s.collected, ∃ w, s.sessions[i]? = some w ∧ w.phase = .returned
  rows : s.allResults.filter Row.isChat = s.collected.flatMap s.resultsOf
  noInject : ¬ a.Injects → s.injecting = false ∧ ∀ r ∈ s.allResults, r.isChat = true
  injected : ∀ r ∈ s.allResults, r.isChat = false → r.type = some .inject

theorem sound_init : (State.init a).Sound a := by
  refine ⟨?_, ?_, ?_, rfl, ?_, ?_⟩
  · simp only [State.init, List.map_map]
    refine List.map_congr_left fun i _ => ChatSession.start_sessionId (i + 1)
  · intro w hw
    obtain ⟨i, -, rfl⟩ := List.mem_map.mp hw
    exact ChatSession.sound_start (i + 1) false
  · intro i hi
    cases hi
  · intro _
    refine ⟨rfl, fun r hr => ?_⟩
    cases hr
  · intro r hr
    cases hr

theorem resultsOf_of_getElem? {i : ℕ} {w : ChatSession} (h : s.sessions[i]? = some w) :
    s.resultsOf i = w.results := by
  unfold State.resultsOf
  rw [h]

theorem ChatSession.Sound.isChat {stop : Bool} {w : ChatSession} (h : w.Sound a stop) {r : Row}
    (hr : r ∈ w.results) : r.isChat = true := by
  have hkey : r.key ∈ w.results.map Row.key := List.mem_map_of_mem hr
  rw [h.keys] at hkey
  obtain ⟨k, -, hk⟩ := List.mem_map.mp hkey
  have hsession : r.session = .session w.sessionId := (congrArg Prod.fst hk).symm
  unfold Row.isChat
  rw [hsession]

/-- A session that was replaced by its next step keeps its number. -/
theorem map_set_of_eq {α β : Type} {f : α → β} {l : List α} {i : ℕ} {x y : α} (h : l[i]? = some x)
    (hf : f y = f x) : (l.set i y).map f = l.map f := by
  apply List.ext_getElem?
  intro j
  rw [List.getElem?_map, List.getElem?_map]
  by_cases hj : i = j
  · subst hj
    rw [List.getElem?_set_self (List.getElem?_eq_some_iff.mp h).1, h, Option.map_some,
      Option.map_some, hf]
  · rw [List.getElem?_set_ne hj]

/-- A session that has returned is not replaced. -/
theorem getElem?_set_of_returned {i j : ℕ} {w w' v : ChatSession}
    (future : s.sessions[i]? = some w) (step : w.Step a s.stopEvent w')
    (hv : s.sessions[j]? = some v) (hr : v.phase = .returned) :
    (s.sessions.set i w')[j]? = some v := by
  by_cases hj : i = j
  · subst hj
    obtain rfl : w = v := Option.some_inj.mp (future.symm.trans hv)
    exact absurd step (ChatSession.Ended.no_step (.inl hr))
  · rw [List.getElem?_set_ne hj, hv]

/-- Where the collected sessions are as they were, their results are. -/
theorem rows_congr (h : s.Sound a) {sessions : List ChatSession}
    (hkeep : ∀ i ∈ s.collected, sessions[i]? = s.sessions[i]?) :
    s.allResults.filter Row.isChat =
      s.collected.flatMap { s with sessions := sessions }.resultsOf := by
  rw [h.rows]
  refine List.flatMap_congr fun i hi => ?_
  unfold State.resultsOf
  rw [hkeep i hi]

theorem extend_sound (h : s.Sound a) {i : ℕ} {w : ChatSession} (future : s.sessions[i]? = some w)
    (returned : w.phase = .returned) (main : Main) : (s.extend i w main).Sound a := by
  have hw := h.sessions w (List.mem_of_getElem? future)
  refine ⟨h.ids, h.sessions, ?_, ?_, ?_, ?_⟩
  · intro j hj
    rcases List.mem_append.mp hj with hj | hj
    · exact h.returned j hj
    · obtain rfl := List.mem_singleton.mp hj
      exact ⟨w, future, returned⟩
  · show (s.allResults ++ w.results).filter Row.isChat = (s.collected ++ [i]).flatMap s.resultsOf
    have hchat : w.results.filter Row.isChat = w.results :=
      List.filter_eq_self.mpr fun r hr => hw.isChat hr
    rw [List.filter_append, h.rows, hchat, List.flatMap_append, List.flatMap_singleton,
      resultsOf_of_getElem? future]
  · intro hno
    refine ⟨(h.noInject hno).1, fun r hr => ?_⟩
    rcases List.mem_append.mp hr with hr | hr
    · exact (h.noInject hno).2 r hr
    · exact hw.isChat hr
  · intro r hr hinject
    rcases List.mem_append.mp hr with hr | hr
    · exact h.injected r hr hinject
    · rw [hw.isChat hr] at hinject
      cases hinject

theorem newSession_sound (h : s.Sound a) (main : Main) : (s.newSession a main).Sound a := by
  have hkeep : ∀ i ∈ s.collected,
      (s.sessions ++ [ChatSession.start a (s.sessionCounter + 1)])[i]? = s.sessions[i]? := by
    intro i hi
    obtain ⟨w, hw, -⟩ := h.returned i hi
    exact List.getElem?_append_left (List.getElem?_eq_some_iff.mp hw).1
  refine ⟨?_, ?_, ?_, rows_congr h hkeep, h.noInject, h.injected⟩
  · show (s.sessions ++ [_]).map _ = (List.range (s.sessionCounter + 1)).map _
    rw [List.map_append, h.ids, List.range_succ, List.map_append, List.map_singleton,
      List.map_singleton, ChatSession.start_sessionId]
  · intro w hw
    rcases List.mem_append.mp hw with hw | hw
    · exact h.sessions w hw
    · rw [List.mem_singleton.mp hw]
      exact ChatSession.sound_start _ _
  · intro i hi
    obtain ⟨w, hw, hr⟩ := h.returned i hi
    exact ⟨w, (hkeep i hi).trans hw, hr⟩

/-- **Step**: ids, results and collected lists stay in order. -/
theorem sound_step (hs : s.Step a s') (h : s.Sound a) : s'.Sound a := by
  cases hs with
  | @session i w w' future step =>
    obtain ⟨hw', hid⟩ :=
      ChatSession.sound_step step (h.sessions w (List.mem_of_getElem? future))
    have hkeep : ∀ j ∈ s.collected, (s.sessions.set i w')[j]? = s.sessions[j]? := by
      intro j hj
      obtain ⟨v, hv, hr⟩ := h.returned j hj
      rw [getElem?_set_of_returned future step hv hr, hv]
    refine ⟨?_, ?_, ?_, rows_congr h hkeep, h.noInject, h.injected⟩
    · show (s.sessions.set i w').map _ = _
      rw [map_set_of_eq future hid, h.ids]
    · intro v hv
      rcases List.mem_or_eq_of_mem_set hv with hv | rfl
      · exact h.sessions v hv
      · exact hw'
    · intro j hj
      obtain ⟨v, hv, hr⟩ := h.returned j hj
      exact ⟨v, (hkeep j hj).trans hv, hr⟩
  | wait | again | leave | fail =>
    exact ⟨h.ids, h.sessions, h.returned, h.rows, h.noInject, h.injected⟩
  | collect _ _ future returned | complete _ _ future returned =>
    exact extend_sound h future returned _
  | newSession starting => exact newSession_sound h _
  | interrupt =>
    exact ⟨h.ids, fun w hw => (h.sessions w hw).stopped, h.returned, h.rows, h.noInject,
      h.injected⟩
  | fire injects =>
    exact ⟨h.ids, h.sessions, h.returned, h.rows, fun hno => absurd injects hno, h.injected⟩
  | inject busy reply =>
    refine ⟨h.ids, h.sessions, h.returned, ?_, fun hno => ?_, fun r hr hinject => ?_⟩
    · show (s.allResults ++ [_]).filter Row.isChat = s.collected.flatMap s.resultsOf
      rw [List.filter_append, h.rows]
      exact List.append_nil _
    · exact absurd busy (by rw [(h.noInject hno).1]; exact Bool.false_ne_true)
    · rcases List.mem_append.mp hr with hr | hr
      · exact h.injected r hr hinject
      · rw [List.mem_singleton.mp hr]
        rfl
  | misfire busy =>
    exact ⟨h.ids, h.sessions, h.returned, h.rows, fun hno => ⟨rfl, (h.noInject hno).2⟩, h.injected⟩

theorem reachable_sound (h : s.Reachable a) : s.Sound a := by
  induction h with
  | init => exact sound_init
  | step _ hstep ih => exact sound_step hstep ih

/-! ### Session and turn -/

/-- The session behind future `i` has number `i + 1`. -/
theorem sessionId_of_getElem? (h : s.Sound a) {i : ℕ} {w : ChatSession}
    (hw : s.sessions[i]? = some w) : w.sessionId = i + 1 := by
  have hid := congrArg (·[i]?) h.ids
  simp only [List.getElem?_map, hw, Option.map_some] at hid
  rcases Nat.lt_or_ge i s.sessionCounter with hi | hi
  · rw [List.getElem?_range hi, Option.map_some, Option.some_inj] at hid
    exact hid
  · have hnone : (List.range s.sessionCounter)[i]? = none := by
      rw [List.getElem?_eq_none_iff, List.length_range]
      exact hi
    rw [hnone] at hid
    cases hid

theorem keys_of_getElem? (h : s.Sound a) {i : ℕ} {w : ChatSession}
    (hw : s.sessions[i]? = some w) : w.results.map Row.key =
      (List.range w.results.length).map fun k => (Origin.session (i + 1), k + 1) := by
  rw [(h.sessions w (List.mem_of_getElem? hw)).keys, sessionId_of_getElem? h hw]

theorem nodup_keys_of_getElem? (h : s.Sound a) {i : ℕ} {w : ChatSession}
    (hw : s.sessions[i]? = some w) : (w.results.map Row.key).Nodup := by
  rw [keys_of_getElem? h hw]
  refine List.nodup_range.map fun k l hkl => ?_
  exact Nat.succ_injective (congrArg Prod.snd hkl)

/-- A session's keys are of its own number. -/
theorem fst_of_mem_keys (h : s.Sound a) {i : ℕ} {x : Origin × ℕ}
    (hx : x ∈ (s.resultsOf i).map Row.key) : x.1 = .session (i + 1) := by
  unfold State.resultsOf at hx
  cases hw : s.sessions[i]? with
  | none =>
    rw [hw] at hx
    cases hx
  | some w =>
    simp only [hw] at hx
    rw [keys_of_getElem? h hw] at hx
    obtain ⟨k, -, rfl⟩ := List.mem_map.mp hx
    rfl

theorem nodup_keys (h : s.Sound a) (hnodup : s.collected.Nodup) :
    ((s.allResults.filter Row.isChat).map Row.key).Nodup := by
  rw [h.rows, List.map_flatMap, List.nodup_flatMap]
  refine ⟨fun i hi => ?_, hnodup.imp fun {i j} hij => ?_⟩
  · obtain ⟨w, hw, -⟩ := h.returned i hi
    rw [resultsOf_of_getElem? hw]
    exact nodup_keys_of_getElem? h hw
  · intro x hxi hxj
    have heq := (fst_of_mem_keys h hxi).symm.trans (fst_of_mem_keys h hxj)
    exact hij (Nat.succ_injective (Origin.session.inj heq))

/-! ### The two loops -/

/-- Once its sessions have returned, the loop over `as_completed` takes one after the other and
ends. -/
theorem drain_leaves {rest : Finset ℕ} (hdrain : s.main = .drain rest)
    (hreturned : ∀ i ∈ rest, ∃ w, s.sessions[i]? = some w ∧ w.phase = .returned) :
    ∃ s', Relation.ReflTransGen (State.Step a) s s' ∧ s'.main = .left := by
  induction rest using Finset.strongInduction generalizing s with
  | H rest ih =>
    rcases Finset.eq_empty_or_nonempty rest with rfl | ⟨i, hi⟩
    · exact ⟨_, .single (.leave hdrain), rfl⟩
    · obtain ⟨w, hw, hr⟩ := hreturned i hi
      obtain ⟨s', hrun, hleft⟩ := ih (rest.erase i) (Finset.erase_ssubset hi)
        (s := s.extend i w (.drain (rest.erase i))) rfl
        fun j hj => hreturned j (Finset.mem_of_mem_erase hj)
      exact ⟨s', .head (.complete hdrain hi hw hr) hrun, hleft⟩

/-- **The session pool.**  At every head of the continuous loop `concurrency` sessions are active, and
every session is active or was collected once.  The other loop ends, with `concurrency` sessions
collected once each.  Ids are counted from 1; what was collected are whole result lists, and no two
chat results are of one session and turn. -/
theorem session_pool (hs : s.Reachable a) :
    s.sessions.map ChatSession.sessionId = (List.range s.sessionCounter).map (· + 1) ∧
    (s.main = .head → s.active.card = a.concurrency ∧ ∀ i < s.sessions.length,
      (i ∈ s.active ∧ s.collected.count i = 0) ∨ (i ∉ s.active ∧ s.collected.count i = 1)) ∧
    (s.main = .left → s.sessions.length = a.concurrency ∧
      s.collected.Perm (List.range a.concurrency)) ∧
    (∀ rest, s.main = .drain rest → (∀ w ∈ s.sessions, w.phase = .returned) →
      ∃ s', Relation.ReflTransGen (State.Step a) s s' ∧ s'.main = .left) ∧
    (∀ i ∈ s.collected, ∃ w, s.sessions[i]? = some w ∧ w.phase = .returned ∧
      (s.stopEvent = false → w.results.length = a.texts.length)) ∧
    s.allResults.filter Row.isChat = s.collected.flatMap s.resultsOf ∧
    ((s.allResults.filter Row.isChat).map Row.key).Nodup := by
  have hsound := reachable_sound hs
  obtain ⟨p, hstarted, hcollected, hmain⟩ := exists_pool hs
  refine ⟨hsound.ids, ?_, ?_, ?_, ?_, hsound.rows, nodup_keys hsound (hcollected ▸ p.nodup)⟩
  · intro hhead
    rw [hhead] at hmain
    obtain ⟨hrun, hcard⟩ := hmain
    refine ⟨hrun ▸ hcard, fun i hi => ?_⟩
    rw [← hrun, ← hcollected]
    exact p.running_or_collected (hstarted ▸ hi)
  · intro hleft
    rw [hleft] at hmain
    obtain ⟨hrun, hcount⟩ := hmain
    refine ⟨hstarted.symm.trans hcount, ?_⟩
    rw [← hcollected, ← hcount]
    exact p.collected_perm hrun
  · intro rest hdrain hreturned
    rw [hdrain] at hmain
    obtain ⟨hrun, -⟩ := hmain
    refine drain_leaves hdrain fun i hi => ?_
    have hlt : i < s.sessions.length := hstarted ▸ p.lt_of_mem (hrun ▸ hi)
    exact ⟨_, List.getElem?_eq_getElem hlt, hreturned _ (List.getElem_mem hlt)⟩
  · intro i hi
    obtain ⟨w, hw, hr⟩ := hsound.returned i hi
    exact ⟨w, hw, hr, fun hstop => (hsound.sessions w (List.mem_of_getElem? hw)).whole hstop hr⟩

/-- One session at a time, of one turn each. -/
def oneByOne : Args where
  script := .multiSession
  turns := 1
  concurrency := 1
  thinkTime := 0
  continuous := true
  mixed := false

/-- The first session has been replaced by the second. -/
theorem oneByOne_replaces (reply : Inference) : ∃ s : State, s.Reachable oneByOne ∧
    s.main = .head ∧ s.stopEvent = false ∧ s.collected = [0] ∧
    s.sessions = [((ChatSession.start oneByOne 1).record oneByOne reply).check oneByOne false,
      ChatSession.start oneByOne 2] := by
  have hinit : (State.init oneByOne).Reachable oneByOne := .init
  have hreply := hinit.step (.session (i := 0) rfl (.reply rfl reply))
  have hcheck := hreply.step (.session (i := 0) rfl (.check rfl))
  have hzero : 0 ∈ Finset.range 1 := by decide
  have hwait := hcheck.step (.wait rfl (Finset.Subset.refl _) ⟨0, hzero⟩)
  have hcollect := hwait.step (.collect (i := 0) rfl hzero rfl rfl)
  have hnew := hcollect.step (.newSession rfl)
  have hagain := hnew.step (.again rfl)
  exact ⟨_, hagain, rfl, rfl, rfl, rfl⟩

theorem session_pool_oneByOne : ∃ s : State, s.main = .head ∧ s.sessions.length = 2 ∧
    s.active.card = 1 ∧ ((s.allResults.filter Row.isChat).map Row.key).Nodup := by
  obtain ⟨s, hs, hhead, -, -, hsessions⟩ := oneByOne_replaces ⟨0, 0, 0, ""⟩
  obtain ⟨-, hactive, -, -, -, -, hkeys⟩ := session_pool hs
  exact ⟨s, hhead, by rw [hsessions]; rfl, (hactive hhead).1, hkeys⟩

end InfraDemo.LoadTest
