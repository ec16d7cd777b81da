import Mathlib.Data.List.Induction
import Mathlib.Data.Nat.Find
import Mathlib.Logic.Relation
import Mathlib.Tactic.Common

/-!
# OrderedMap — tasks run by workers, their results taken in order

`n` tasks are submitted in order.  At most `workers` run at a time, a worker starts the first that is
pending, and a task that runs finishes with its outcome.  The consumer takes the outcomes in the order
of submission.  If one has raised, it cancels from the last task backwards what has not started; it
leaves when nothing runs or waits.

Whatever the workers do, the consumer ends, with what the tasks one after the other would have given
(`sequential`).
-/

namespace InfraDemo.OrderedMap

variable {ε β : Type}

inductive Future where
  | pending
  | running
  | finished
  | cancelled
  deriving DecidableEq

/-- Where the consumer is: it has taken some results; task `k` has raised, and what is from `j` on was
cancelled; it waits for the workers; it has left. -/
inductive Consumer (ε β : Type) where
  | taking (ys : List β)
  | cancelling (err : ε) (k j : ℕ)
  | joining (r : Except ε (List β))
  | left (r : Except ε (List β))

structure State (ε β : Type) where
  futures : List Future
  consumer : Consumer ε β

/-- The outcomes one after the other, up to the first exception. -/
def sequential (outcome : ℕ → Except ε β) (n : ℕ) : Except ε (List β) :=
  (List.range n).mapM outcome

def Future.isRunning : Future → Bool
  | .running => true
  | _ => false

/-- Neither pending nor running. -/
def Future.Ended (t : Future) : Prop := t ≠ .pending ∧ t ≠ .running

/-- `future.cancel()` -/
def Future.cancel : Future → Future
  | .pending => .cancelled
  | t => t

section System

variable (outcome : ℕ → Except ε β) (n workers : ℕ)

def init : State ε β := ⟨List.replicate n .pending, .taking []⟩

inductive Step (s : State ε β) : State ε β → Prop where
  | start {i : ℕ} (free : s.futures.countP Future.isRunning < workers)
      (pending : s.futures[i]? = some .pending)
      (first : ∀ j < i, s.futures[j]? ≠ some .pending) :
      Step s { s with futures := s.futures.set i .running }
  | finish {i : ℕ} (running : s.futures[i]? = some .running) :
      Step s { s with futures := s.futures.set i .finished }
  | take {ys : List β} {y : β} (taking : s.consumer = .taking ys)
      (finished : s.futures[ys.length]? = some .finished) (ok : outcome ys.length = .ok y) :
      Step s { s with consumer := .taking (ys ++ [y]) }
  | raise {ys : List β} {err : ε} (taking : s.consumer = .taking ys)
      (finished : s.futures[ys.length]? = some .finished) (error : outcome ys.length = .error err) :
      Step s { s with consumer := .cancelling err ys.length s.futures.length }
  | cancel {err : ε} {k j : ℕ} {t : Future} (cancelling : s.consumer = .cancelling err k (j + 1))
      (behind : k < j) (task : s.futures[j]? = some t) :
      Step s ⟨s.futures.set j t.cancel, .cancelling err k j⟩
  | cancelled {err : ε} {k j : ℕ} (cancelling : s.consumer = .cancelling err k j)
      (all : j ≤ k + 1) : Step s { s with consumer := .joining (.error err) }
  | exhausted {ys : List β} (taking : s.consumer = .taking ys) (all : s.futures.length ≤ ys.length) :
      Step s { s with consumer := .joining (.ok ys) }
  | join {r : Except ε (List β)} (joining : s.consumer = .joining r)
      (ended : ∀ t ∈ s.futures, t.Ended) : Step s { s with consumer := .left r }

inductive Reachable : State ε β → Prop where
  | init : Reachable (init n)
  | step {s s' : State ε β} (reached : Reachable s) (step : Step outcome workers s s') :
      Reachable s'

end System

variable {outcome : ℕ → Except ε β} {n workers : ℕ} {s s' : State ε β}

/-! ### The order of the results -/

/-- One more result. -/
theorem ok_concat {ys : List β} {y : β} (h : ∀ i (hi : i < ys.length), outcome i = .ok ys[i])
    (hy : outcome ys.length = .ok y) :
    ∀ i (hi : i < (ys ++ [y]).length), outcome i = .ok (ys ++ [y])[i] := by
  intro i hi
  rw [List.length_append, List.length_singleton] at hi
  rcases Nat.lt_succ_iff_lt_or_eq.mp hi with hlt | rfl
  · rw [List.getElem_append_left hlt]
    exact h i hlt
  · rw [List.getElem_concat_length rfl]
    exact hy

theorem sequential_ok {ys : List β} (h : ∀ i (hi : i < ys.length), outcome i = .ok ys[i]) :
    sequential outcome ys.length = .ok ys := by
  induction ys using List.reverseRecOn with
  | nil => rfl
  | append_singleton ys y ih =>
    have hys : sequential outcome ys.length = .ok ys := ih fun i hi => by
      rw [h i (by simp; omega), List.getElem_append_left hi]
    have hy : outcome ys.length = .ok y := by
      rw [h ys.length (by simp), List.getElem_concat_length rfl]
    unfold sequential at hys ⊢
    rw [List.length_append, List.length_singleton, List.range_succ, List.mapM_append, hys]
    simp only [hy, List.mapM_cons, List.mapM_nil]
    rfl

theorem sequential_error {ys : List β} {err : ε} (h : ∀ i (hi : i < ys.length), outcome i = .ok ys[i])
    (herr : outcome ys.length = .error err) (hn : ys.length < n) :
    sequential outcome n = .error err := by
  obtain ⟨m, rfl⟩ := Nat.exists_eq_add_of_lt hn
  have hrange : List.range (ys.length + m + 1) = List.range ys.length ++ ys.length ::
      (List.range m).map (ys.length + 1 + ·) := by
    rw [show ys.length + m + 1 = ys.length + (1 + m) by omega, List.range_add]
    congr 1
    rw [Nat.add_comm 1 m, List.range_succ_eq_map, List.map_cons, List.map_map]
    congr 1
    refine List.map_congr_left fun i _ => ?_
    show ys.length + (i + 1) = ys.length + 1 + i
    omega
  have hys := sequential_ok h
  unfold sequential at hys ⊢
  rw [hrange, List.mapM_append, hys, List.mapM_cons, herr]
  rfl

/-- The outcomes one after the other are all results, or results up to the first exception. -/
theorem sequential_cases (outcome : ℕ → Except ε β) (n : ℕ) :
    ∃ ys : List β, (∀ i (hi : i < ys.length), outcome i = .ok ys[i]) ∧
      (sequential outcome n = .ok ys ∧ ys.length = n ∨ ys.length < n ∧
        ∃ err, sequential outcome n = .error err ∧ outcome ys.length = .error err) := by
  induction n with
  | zero => exact ⟨[], fun i hi => absurd hi (Nat.not_lt_zero i), .inl ⟨rfl, rfl⟩⟩
  | succ n ih =>
    obtain ⟨ys, hok, ⟨-, rfl⟩ | ⟨hlt, err, -, herr⟩⟩ := ih
    · cases hout : outcome ys.length with
      | error err =>
        have hlt := Nat.lt_succ_self ys.length
        exact ⟨ys, hok, .inr ⟨hlt, err, sequential_error hok hout hlt, hout⟩⟩
      | ok y =>
        have hlen : (ys ++ [y]).length = ys.length + 1 := by simp
        have hok' := ok_concat hok hout
        exact ⟨ys ++ [y], hok', .inl ⟨hlen ▸ sequential_ok hok', hlen⟩⟩
    · have hlt' := Nat.lt_succ_of_lt hlt
      exact ⟨ys, hok, .inr ⟨hlt', err, sequential_error hok herr hlt', herr⟩⟩

/-- The consumer holds what the tasks one after the other give. -/
def Consumer.Ordered (outcome : ℕ → Except ε β) (futures : List Future) : Consumer ε β → Prop
  | .taking ys => ys.length ≤ futures.length ∧ (∀ i (hi : i < ys.length), outcome i = .ok ys[i]) ∧
      .cancelled ∉ futures
  | .cancelling err k j => j ≤ futures.length ∧ sequential outcome futures.length = .error err
  | .joining r => sequential outcome futures.length = r ∧ ((∃ ys, r = .ok ys) → .cancelled ∉ futures)
  | .left r => sequential outcome futures.length = r ∧ (∀ t ∈ futures, t.Ended) ∧
      ((∃ ys, r = .ok ys) → .cancelled ∉ futures)

structure Sound (outcome : ℕ → Except ε β) (n workers : ℕ) (s : State ε β) : Prop where
  length : s.futures.length = n
  capacity : s.futures.countP Future.isRunning ≤ workers
  ordered : s.consumer.Ordered outcome s.futures

theorem sound_init : Sound outcome n workers (init n : State ε β) where
  length := List.length_replicate
  capacity := by
    have hzero : (List.replicate n Future.pending).countP Future.isRunning = 0 :=
      List.countP_eq_zero.mpr fun t ht => by rw [List.eq_of_mem_replicate ht]; decide
    show (List.replicate n Future.pending).countP Future.isRunning ≤ workers
    omega
  ordered := by
    refine ⟨Nat.zero_le _, fun i hi => absurd hi (Nat.not_lt_zero i), fun hmem => ?_⟩
    cases List.eq_of_mem_replicate hmem

/-- A task that starts or finishes leaves the consumer what it has. -/
theorem Consumer.Ordered.set {c : Consumer ε β} {futures : List Future} {i : ℕ} {t t' : Future}
    (h : c.Ordered outcome futures) (hi : futures[i]? = some t) (ht : ¬ t.Ended) (hne : t' ≠ .cancelled) :
    c.Ordered outcome (futures.set i t') := by
  have hmem : .cancelled ∉ futures → .cancelled ∉ futures.set i t' := fun hno hmem => by
    rcases List.mem_or_eq_of_mem_set hmem with hmem | heq
    · exact hno hmem
    · exact hne heq.symm
  cases c with
  | taking ys =>
    obtain ⟨hlen, hok, hno⟩ := h
    exact ⟨by rwa [List.length_set], hok, hmem hno⟩
  | cancelling err k j =>
    obtain ⟨hj, hseq⟩ := h
    exact ⟨by rwa [List.length_set], by rwa [List.length_set]⟩
  | joining r =>
    obtain ⟨hseq, hno⟩ := h
    exact ⟨by rwa [List.length_set], fun hr => hmem (hno hr)⟩
  | left r =>
    obtain ⟨-, hended, -⟩ := h
    exact absurd (hended t (List.mem_of_getElem? hi)) ht

theorem countP_set_running {futures : List Future} {i : ℕ} {t : Future} (hi : futures[i]? = some t)
    (t' : Future) :
    (futures.set i t').countP Future.isRunning + (if t.isRunning then 1 else 0) =
      futures.countP Future.isRunning + (if t'.isRunning then 1 else 0) := by
  obtain ⟨hlt, rfl⟩ := List.getElem?_eq_some_iff.mp hi
  have hpos : (if futures[i].isRunning then 1 else 0) ≤ futures.countP Future.isRunning := by
    split_ifs with h
    · exact List.countP_pos_iff.mpr ⟨_, List.getElem_mem hlt, h⟩
    · exact Nat.zero_le _
  rw [List.countP_set hlt]
  omega

/-- **Step**: the workers stay within their number, the consumer keeps the order. -/
theorem sound_step (hs : Step outcome workers s s') (h : Sound outcome n workers s) :
    Sound outcome n workers s' := by
  obtain ⟨hlen, hcap, hord⟩ := h
  cases hs with
  | start free pending first =>
    refine ⟨by rwa [List.length_set], ?_, hord.set pending (by simp [Future.Ended]) (by simp)⟩
    have hcount := countP_set_running pending .running
    simp only [Future.isRunning, if_true, Bool.false_eq_true, if_false, Nat.add_zero] at hcount
    show (s.futures.set _ .running).countP Future.isRunning ≤ workers
    omega
  | finish running =>
    refine ⟨by rwa [List.length_set], ?_, hord.set running (by simp [Future.Ended]) (by simp)⟩
    have hcount := countP_set_running running .finished
    simp only [Future.isRunning, if_true, Bool.false_eq_true, if_false, Nat.add_zero] at hcount
    show (s.futures.set _ .finished).countP Future.isRunning ≤ workers
    omega
  | @take ys y taking finished ok =>
    rw [taking] at hord
    obtain ⟨hys, hok, hno⟩ := hord
    have hlt : ys.length < s.futures.length := (List.getElem?_eq_some_iff.mp finished).1
    refine ⟨hlen, hcap, ?_, ok_concat hok ok, hno⟩
    rw [List.length_append, List.length_singleton]
    exact hlt
  | @raise ys err taking finished error =>
    rw [taking] at hord
    obtain ⟨hys, hok, hno⟩ := hord
    have hlt : ys.length < s.futures.length := (List.getElem?_eq_some_iff.mp finished).1
    exact ⟨hlen, hcap, le_rfl, sequential_error hok error hlt⟩
  | @cancel err k j t cancelling behind task =>
    rw [cancelling] at hord
    obtain ⟨hj, hseq⟩ := hord
    refine ⟨by rwa [List.length_set], ?_, ?_, ?_⟩
    · have hcount := countP_set_running task t.cancel
      have hsame : t.cancel.isRunning = t.isRunning := by cases t <;> rfl
      rw [hsame] at hcount
      show (s.futures.set j t.cancel).countP Future.isRunning ≤ workers
      omega
    · rw [List.length_set]
      omega
    · rwa [List.length_set]
  | cancelled cancelling all =>
    rw [cancelling] at hord
    obtain ⟨-, hseq⟩ := hord
    exact ⟨hlen, hcap, hseq, fun ⟨ys, hr⟩ => by cases hr⟩
  | @exhausted ys taking all =>
    rw [taking] at hord
    obtain ⟨hys, hok, hno⟩ := hord
    have hall : s.futures.length = ys.length := le_antisymm all hys
    exact ⟨hlen, hcap, hall ▸ sequential_ok hok, fun _ => hno⟩
  | join joining ended =>
    rw [joining] at hord
    obtain ⟨hseq, hno⟩ := hord
    exact ⟨hlen, hcap, hseq, ended, hno⟩

theorem reachable_sound (h : Reachable outcome n workers s) : Sound outcome n workers s := by
  induction h with
  | init => exact sound_init
  | step _ hstep ih => exact sound_step hstep ih

/-! ### The way to the end -/

/-- While a task is pending or runs, a worker can make a step. -/
theorem exists_worker_step (hworkers : 1 ≤ workers) (h : ∃ t ∈ s.futures, ¬ t.Ended) :
    ∃ s', Step outcome workers s s' := by
  by_cases hrun : ∃ i : ℕ, s.futures[i]? = some Future.running
  · obtain ⟨i, hi⟩ := hrun
    exact ⟨_, .finish hi⟩
  · have hzero : s.futures.countP Future.isRunning = 0 := by
      refine List.countP_eq_zero.mpr fun t ht hr => hrun ?_
      obtain ⟨i, hi⟩ := List.mem_iff_getElem?.mp ht
      cases t <;> first | exact ⟨i, hi⟩ | cases hr
    have hpend : ∃ i : ℕ, s.futures[i]? = some Future.pending := by
      obtain ⟨t, ht, hended⟩ := h
      obtain ⟨i, hi⟩ := List.mem_iff_getElem?.mp ht
      cases t with
      | pending => exact ⟨i, hi⟩
      | running => exact absurd ⟨i, hi⟩ hrun
      | finished | cancelled => exact absurd ⟨by simp, by simp⟩ hended
    have hfirst := Nat.find_spec hpend
    exact ⟨_, .start (by omega) hfirst fun j hj => Nat.find_min hpend hj⟩

/-- **No state but the last is stuck.** -/
theorem exists_step (hworkers : 1 ≤ workers) (h : Sound outcome n workers s)
    (hleft : ∀ r, s.consumer ≠ .left r) : ∃ s', Step outcome workers s s' := by
  have hord := h.ordered
  cases hc : s.consumer with
  | taking ys =>
    rw [hc] at hord
    obtain ⟨hys, -, hno⟩ := hord
    rcases Nat.lt_or_eq_of_le hys with hlt | heq
    · have htask := List.getElem?_eq_getElem hlt
      have hmem := List.getElem_mem hlt
      cases ht : s.futures[ys.length] with
      | pending | running =>
        exact exists_worker_step hworkers ⟨_, hmem, by rw [ht]; simp [Future.Ended]⟩
      | finished =>
        rw [ht] at htask
        cases hout : outcome ys.length with
        | ok y => exact ⟨_, .take hc htask hout⟩
        | error err => exact ⟨_, .raise hc htask hout⟩
      | cancelled => exact absurd (ht ▸ hmem) hno
    · exact ⟨_, .exhausted hc (Nat.le_of_eq heq.symm)⟩
  | cancelling err k j =>
    rw [hc] at hord
    rcases Nat.lt_or_ge (k + 1) j with hlt | hle
    · obtain ⟨m, rfl⟩ := Nat.exists_eq_add_of_lt (Nat.zero_lt_of_lt hlt)
      rw [Nat.zero_add] at hc hord hlt
      have htask := List.getElem?_eq_getElem (l := s.futures) (i := m) (by have := hord.1; omega)
      exact ⟨_, .cancel hc (by omega) htask⟩
    · exact ⟨_, .cancelled hc hle⟩
  | joining r =>
    by_cases hended : ∀ t ∈ s.futures, t.Ended
    · exact ⟨_, .join hc hended⟩
    · exact exists_worker_step hworkers (by simpa using hended)
  | left r => exact absurd hc (hleft r)

/-- The steps a future can still make. -/
def Future.stepsLeft : Future → ℕ
  | .pending => 2
  | .running => 1
  | .finished => 0
  | .cancelled => 0

/-- The steps the consumer can still make by itself, for `n` tasks. -/
def Consumer.stepsLeft (n : ℕ) : Consumer ε β → ℕ
  | .taking ys => (n - ys.length) + n + 3
  | .cancelling _ _ j => j + 2
  | .joining _ => 1
  | .left _ => 0

/-- The steps the futures can still make. -/
def workLeft : List Future → ℕ
  | [] => 0
  | t :: futures => t.stepsLeft + workLeft futures

def State.stepsLeft (s : State ε β) : ℕ :=
  workLeft s.futures + s.consumer.stepsLeft s.futures.length

theorem workLeft_set {futures : List Future} {i : ℕ} {t : Future} (h : futures[i]? = some t)
    (t' : Future) : workLeft (futures.set i t') + t.stepsLeft = workLeft futures + t'.stepsLeft := by
  induction futures generalizing i with
  | nil => cases h
  | cons x futures ih =>
    cases i with
    | zero =>
      obtain rfl := Option.some_inj.mp h
      rw [List.set_cons_zero, workLeft, workLeft]
      omega
    | succ i =>
      have hrest := ih h
      rw [List.set_cons_succ, workLeft, workLeft]
      omega

/-- **Every step leaves less to do.** -/
theorem stepsLeft_lt (hs : Step outcome workers s s') (h : Sound outcome n workers s) :
    s'.stepsLeft < s.stepsLeft := by
  have hord := h.ordered
  unfold State.stepsLeft
  cases hs with
  | start free pending first =>
    have hsum := workLeft_set pending .running
    simp only [Future.stepsLeft, List.length_set] at hsum ⊢
    omega
  | finish running =>
    have hsum := workLeft_set running .finished
    simp only [Future.stepsLeft, List.length_set] at hsum ⊢
    omega
  | @take ys y taking finished ok =>
    have hlt : ys.length < s.futures.length := (List.getElem?_eq_some_iff.mp finished).1
    simp only [taking, Consumer.stepsLeft, List.length_append, List.length_singleton]
    omega
  | @raise ys err taking finished error =>
    have hlt : ys.length < s.futures.length := (List.getElem?_eq_some_iff.mp finished).1
    simp only [taking, Consumer.stepsLeft]
    omega
  | @cancel err k j t cancelling behind task =>
    have hsum := workLeft_set task t.cancel
    have hle : t.cancel.stepsLeft ≤ t.stepsLeft := by cases t <;> decide
    simp only [cancelling, Consumer.stepsLeft]
    omega
  | cancelled cancelling all =>
    simp only [cancelling, Consumer.stepsLeft]
    omega
  | exhausted taking all =>
    simp only [taking, Consumer.stepsLeft]
    omega
  | join joining ended =>
    simp only [joining, Consumer.stepsLeft]
    omega

/-- **The consumer leaves**, with what the tasks one after the other give. -/
theorem leaves (hworkers : 1 ≤ workers) (h : Reachable outcome n workers s) :
    ∃ s', Relation.ReflTransGen (Step outcome workers) s s' ∧ Reachable outcome n workers s' ∧
      s'.consumer = .left (sequential outcome n) := by
  induction hm : s.stepsLeft using Nat.strong_induction_on generalizing s with
  | _ m ih =>
    have hsound := reachable_sound h
    by_cases hleft : ∃ r, s.consumer = .left r
    · obtain ⟨r, hr⟩ := hleft
      have hord := hsound.ordered
      rw [hr] at hord
      refine ⟨s, .refl, h, ?_⟩
      rw [hr, ← hord.1, hsound.length]
    · obtain ⟨t, ht⟩ := exists_step hworkers hsound fun r hr => hleft ⟨r, hr⟩
      obtain ⟨s', hrun, hend⟩ := ih _ (hm ▸ stepsLeft_lt ht hsound) (h.step ht) rfl
      exact ⟨s', .head ht hrun, hend⟩

/-- **There is no run without an end.** -/
theorem no_infinite_run (h : Reachable outcome n workers s) :
    ¬ ∃ run : ℕ → State ε β, run 0 = s ∧ ∀ k, Step outcome workers (run k) (run (k + 1)) := by
  rintro ⟨run, rfl, hrun⟩
  have hreach : ∀ k, Reachable outcome n workers (run k) := by
    intro k
    induction k with
    | zero => exact h
    | succ k ih => exact ih.step (hrun k)
  have hleft : ∀ k, (run k).stepsLeft + k ≤ (run 0).stepsLeft := by
    intro k
    induction k with
    | zero => exact le_rfl
    | succ k ih =>
      have hlt := stepsLeft_lt (hrun k) (reachable_sound (hreach k))
      omega
  have hbound := hleft ((run 0).stepsLeft + 1)
  omega

/-- What the consumer leaves with, and how. -/
theorem left_spec (h : Reachable outcome n workers s) {r : Except ε (List β)}
    (hr : s.consumer = .left r) : r = sequential outcome n ∧ (∀ t ∈ s.futures, t.Ended) ∧
      ((∃ ys, r = .ok ys) → ∀ t ∈ s.futures, t = .finished) := by
  have hsound := reachable_sound h
  have hord := hsound.ordered
  rw [hr] at hord
  obtain ⟨hseq, hended, hno⟩ := hord
  refine ⟨by rw [← hseq, hsound.length], hended, fun hok t ht => ?_⟩
  obtain ⟨hpending, hrunning⟩ := hended t ht
  cases t with
  | pending => exact absurd rfl hpending
  | running => exact absurd rfl hrunning
  | finished => rfl
  | cancelled => exact absurd ht (hno hok)

end InfraDemo.OrderedMap
