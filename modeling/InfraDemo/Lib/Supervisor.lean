import Mathlib.Algebra.Order.Monoid.Defs
import Mathlib.Algebra.Order.Monoid.Unbundled.MinMax
import Mathlib.Algebra.Order.Monoid.Unbundled.Pow
import Mathlib.Data.List.Forall2
import Mathlib.Logic.Relation
import Mathlib.Tactic.Common

/-!
# Supervisor — a child for each job, one after the other

A supervisor launches a child, waits until it has exited or `patience` is over, sends it a signal,
waits for `grace`, kills it, and goes on to the next job.  A child is a machine that makes its
steps, reacts to the signal and exits at any time or never; the supervisor does not wait for one it
has killed, which may go on for some time.  Whatever the children do, no other life overlaps with a
later one (`reachable_sound`), the supervisor gets to its end (`finishes`), and it gets there in
time if time passes in its waits only (`prompt_budget`).
-/

namespace InfraDemo

/-- How a child begins a job, its steps, what the signal makes of it, and where it may exit. -/
structure Machine (Job σ : Type) where
  start : Job → σ
  Step : Job → σ → σ → Prop
  Signal : Job → σ → σ → Prop
  Done : Job → σ → Prop

/-- The states of a machine, with or without a reaction to the signal on the way. -/
inductive Machine.Reaches {Job σ : Type} (M : Machine Job σ) (j : Job) : Bool → σ → Prop where
  | start : Reaches M j false (M.start j)
  | step {b : Bool} {x y : σ} (reached : Reaches M j b x) (step : M.Step j x y) : Reaches M j b y
  | signal {x y : σ} (reached : Reaches M j false x) (signal : M.Signal j x y) : Reaches M j true y

namespace Supervisor

open Relation

inductive Fate (T : Type) where
  | alive
  | exited (time : T)
  | died (time : T)

/-- When a child ended. -/
def Fate.ended {T : Type} : Fate T → Option T
  | .alive => none
  | .exited t | .died t => some t

structure Child (Job σ T : Type) where
  job : Job
  state : σ
  launched : T
  /-- when the signal was sent to it -/
  signalled : Option T
  /-- whether it has reacted to it -/
  reacted : Bool
  /-- when it was killed, which it survives for some time -/
  killed : Option T
  fate : Fate T

/-- Where the supervisor is: between two jobs, in its first wait, behind it, in its second wait, or
behind that. -/
inductive Place (T : Type) where
  | between
  | waiting (due : T)
  | signalling
  | stopping (due : T)
  | killing

structure State (Job σ T : Type) where
  todo : List Job
  /-- the newest first -/
  children : List (Child Job σ T)
  place : Place T
  now : T

/-- The state before the first job. -/
def State.init {Job σ T : Type} (jobs : List Job) (begin : T) : State Job σ T where
  todo := jobs
  children := []
  place := .between
  now := begin

namespace Child

variable {Job σ T : Type}

/-- A child that has just been launched. -/
def launch (M : Machine Job σ) (j : Job) (now : T) : Child Job σ T where
  job := j
  state := M.start j
  launched := now
  signalled := none
  reacted := false
  killed := none
  fate := .alive

/-- The signal reaches a child that is alive. -/
def signal (c : Child Job σ T) (now : T) : Child Job σ T :=
  match c.fate with
  | .alive => { c with signalled := some now }
  | _ => c

def kill (c : Child Job σ T) (now : T) : Child Job σ T :=
  match c.fate with
  | .alive => { c with killed := some now }
  | _ => c

variable {c : Child Job σ T} {now : T}

theorem signal_of_alive (h : c.fate = .alive) :
    c.signal now = { c with signalled := some now } := by
  unfold signal
  rw [h]

theorem signal_of_ended (h : c.fate ≠ .alive) : c.signal now = c := by
  unfold signal
  cases hfate : c.fate with
  | alive => exact absurd hfate h
  | exited | died => rfl

theorem kill_of_alive (h : c.fate = .alive) : c.kill now = { c with killed := some now } := by
  unfold kill
  rw [h]

theorem kill_of_ended (h : c.fate ≠ .alive) : c.kill now = c := by
  unfold kill
  cases hfate : c.fate with
  | alive => exact absurd hfate h
  | exited | died => rfl

/-- What a child does on its own; one that was killed dies, sooner or later. -/
inductive Step (M : Machine Job σ) (now : T) (c : Child Job σ T) : Child Job σ T → Prop where
  | step {y : σ} (alive : c.fate = .alive) (step : M.Step c.job c.state y) :
      Step M now c { c with state := y }
  | react {y : σ} (alive : c.fate = .alive) (sent : c.signalled ≠ none) (first : c.reacted = false)
      (signal : M.Signal c.job c.state y) : Step M now c { c with state := y, reacted := true }
  | exit (alive : c.fate = .alive) (done : M.Done c.job c.state) :
      Step M now c { c with fate := .exited now }
  | die (alive : c.fate = .alive) (killed : c.killed ≠ none) :
      Step M now c { c with fate := .died now }

end Child

variable {Job σ T : Type}

section Steps

variable (M : Machine Job σ) (patience grace : T) [Add T]

/-- A step of the supervisor.  A wait ends when the child has ended, or when its time is over; no
wait follows the `kill`. -/
inductive Own [LE T] (s : State Job σ T) : State Job σ T → Prop where
  | launch {j : Job} {rest : List Job} (place : s.place = .between) (todo : s.todo = j :: rest) :
      Own s
        { s with
          todo := rest
          children := .launch M j s.now :: s.children
          place := .waiting (s.now + patience) }
  | reap {c : Child Job σ T} {older : List (Child Job σ T)} {due : T}
      (place : s.place = .waiting due ∨ s.place = .stopping due) (newest : s.children = c :: older)
      (ended : c.fate ≠ .alive) : Own s { s with place := .between }
  | expire {due : T} (place : s.place = .waiting due) (passed : due ≤ s.now) :
      Own s { s with place := .signalling }
  | signal {c : Child Job σ T} {older : List (Child Job σ T)} (place : s.place = .signalling)
      (newest : s.children = c :: older) :
      Own s { s with children := c.signal s.now :: older, place := .stopping (s.now + grace) }
  | giveUp {due : T} (place : s.place = .stopping due) (passed : due ≤ s.now) :
      Own s { s with place := .killing }
  | kill {c : Child Job σ T} {older : List (Child Job σ T)} (place : s.place = .killing)
      (newest : s.children = c :: older) :
      Own s { s with children := c.kill s.now :: older, place := .between }

/-- Time passes, or the supervisor makes a step. -/
inductive Alone [LE T] (s : State Job σ T) : State Job σ T → Prop where
  | tick {t : T} (later : s.now ≤ t) : Alone s { s with now := t }
  | own {s' : State Job σ T} (own : Own M patience grace s s') : Alone s s'

/-- One step, of the supervisor, of time, or of a child. -/
inductive Step [LE T] (s : State Job σ T) : State Job σ T → Prop where
  | alone {s' : State Job σ T} (alone : Alone M patience grace s s') : Step s s'
  | child {newer older : List (Child Job σ T)} {c c' : Child Job σ T}
      (mem : s.children = newer ++ c :: older) (step : c.Step M s.now c') :
      Step s { s with children := newer ++ c' :: older }

variable {M patience grace} [LE T] {s : State Job σ T}

theorem step_newest {c c' : Child Job σ T} {older : List (Child Job σ T)}
    (hnewest : s.children = c :: older) (hs : c.Step M s.now c') :
    Step M patience grace s { s with children := c' :: older } :=
  .child (show s.children = [] ++ c :: older from hnewest) hs

/-- The newest child can run on. -/
theorem run_newest {c : Child Job σ T} {older : List (Child Job σ T)} {y : σ}
    (hnewest : s.children = c :: older) (halive : c.fate = .alive)
    (hrun : ReflTransGen (M.Step c.job) c.state y) :
    ReflTransGen (Step M patience grace) s
      { s with children := { c with state := y } :: older } := by
  induction hrun with
  | refl => rw [← hnewest]
  | tail _ hstep ih => exact ih.tail (step_newest rfl (.step halive hstep))

end Steps

/-! ### The lives of the children -/

section Follows

/-- The child goes on, or ends if it was alive. -/
structure Child.Follows (c c' : Child Job σ T) : Prop where
  job : c'.job = c.job
  launched : c'.launched = c.launched
  signalled : c'.signalled = c.signalled
  killed : c'.killed = c.killed
  fate : c.fate = .alive ∨ c'.fate = c.fate

instance : Std.Refl (@Child.Follows Job σ T) :=
  ⟨fun _ => ⟨rfl, rfl, rfl, rfl, .inr rfl⟩⟩

variable {c c' : Child Job σ T} {children children' : List (Child Job σ T)}

theorem Child.Follows.not_alive (h : c.Follows c') (hc : c.fate ≠ .alive) : c'.fate = c.fate :=
  h.fate.resolve_left hc

/-- The supervisor is through with the child: it has ended, or it was killed. -/
def Child.Over (c : Child Job σ T) : Prop := c.fate = .alive → c.killed ≠ none

theorem Child.Follows.over_of (h : c.Follows c') (hc : c.Over) : c'.Over := by
  intro halive
  have hlive : c.fate = .alive := by
    by_contra hne
    rw [h.not_alive hne] at halive
    exact hne halive
  rw [h.killed]
  exact hc hlive

theorem follows_replace (newer older : List (Child Job σ T)) (h : c.Follows c') :
    List.Forall₂ Child.Follows (newer ++ c :: older) (newer ++ c' :: older) :=
  List.rel_append (List.forall₂_refl newer) (.cons h (List.forall₂_refl older))

theorem exists_follows (h : List.Forall₂ Child.Follows children children') (hc : c' ∈ children') :
    ∃ c ∈ children, c.Follows c' := by
  induction h with
  | nil => cases hc
  | @cons d d' older older' hd _ ih =>
    rcases List.mem_cons.mp hc with rfl | hc
    · exact ⟨d, List.mem_cons_self, hd⟩
    · obtain ⟨c, hmem, hfollows⟩ := ih hc
      exact ⟨c, List.mem_cons_of_mem d hmem, hfollows⟩

theorem map_job_of_follows (h : List.Forall₂ Child.Follows children children') :
    children'.map Child.job = children.map Child.job := by
  induction h with
  | nil => rfl
  | cons hc _ ih => rw [List.map_cons, List.map_cons, hc.job, ih]

variable [LE T]

/-- `d` ended or was killed before `c` was launched. -/
def Child.After (c d : Child Job σ T) : Prop :=
  ∃ t, (d.fate.ended = some t ∨ d.killed = some t) ∧ t ≤ c.launched

theorem Child.After.over_of {d : Child Job σ T} (h : c.After d) : d.Over := by
  obtain ⟨t, hended | hkilled, -⟩ := h
  · intro halive
    rw [halive] at hended
    cases hended
  · intro _
    rw [hkilled]
    exact Option.some_ne_none t

theorem Child.Follows.after {d d' : Child Job σ T} (hc : c.Follows c') (hd : d.Follows d')
    (h : c.After d) : c'.After d' := by
  obtain ⟨t, ht, hle⟩ := h
  refine ⟨t, ht.imp (fun hended => ?_) fun hkilled => ?_, by rw [hc.launched]; exact hle⟩
  · rwa [hd.not_alive fun halive => by rw [halive] at hended; cases hended]
  · rwa [hd.killed]

theorem apart_of_follows (h : List.Forall₂ Child.Follows children children')
    (hapart : children.Pairwise Child.After) : children'.Pairwise Child.After := by
  induction h with
  | nil => exact .nil
  | @cons c c' older older' hc holder ih =>
    obtain ⟨hnewest, hrest⟩ := List.pairwise_cons.mp hapart
    refine List.pairwise_cons.mpr ⟨fun d' hd' => ?_, ih hrest⟩
    obtain ⟨d, hd, hfollows⟩ := exists_follows holder hd'
    exact hc.after hfollows (hnewest d hd)

end Follows

/-! ### What holds in every reachable state -/

section Sound

variable (M : Machine Job σ) (patience grace : T) [Add T] [Preorder T]

/-- A child is signalled after `patience` only, killed only `grace` after that, and dies of that
only. -/
structure Child.Sound (now : T) (c : Child Job σ T) : Prop where
  run : M.Reaches c.job c.reacted c.state
  reacted : c.reacted = true → c.signalled ≠ none
  signalled : ∀ t, c.signalled = some t → c.launched + patience ≤ t
  killed : ∀ t, c.killed = some t → ∃ t₀, c.signalled = some t₀ ∧ t₀ + grace ≤ t
  exited : ∀ t, c.fate = .exited t → M.Done c.job c.state
  died : ∀ t, c.fate = .died t → ∃ t₀, c.killed = some t₀ ∧ t₀ ≤ t
  past : ∀ t, c.fate.ended = some t ∨ c.killed = some t → t ≤ now

/-- What the supervisor's place says about the children. -/
def Place.Fits (now : T) (children : List (Child Job σ T)) : Place T → Prop
  | .between => ∀ c ∈ children, c.Over
  | .waiting due => ∃ c older, children = c :: older ∧ c.signalled = none ∧
      due = c.launched + patience
  | .signalling => ∃ c older, children = c :: older ∧ c.signalled = none ∧
      c.launched + patience ≤ now
  | .stopping due => ∃ c older, children = c :: older ∧
      (c.fate = .alive → ∃ t, c.signalled = some t ∧ due = t + grace)
  | .killing => ∃ c older, children = c :: older ∧
      (c.fate = .alive → ∃ t, c.signalled = some t ∧ t + grace ≤ now)

structure State.Sound (jobs : List Job) (s : State Job σ T) : Prop where
  jobs : (s.children.map Child.job).reverse ++ s.todo = jobs
  children : ∀ c ∈ s.children, c.Sound M patience grace s.now
  apart : s.children.Pairwise Child.After
  place : s.place.Fits patience grace s.now s.children

variable {M patience grace} {now now' : T} {c c' : Child Job σ T}
  {children children' : List (Child Job σ T)} {s s' : State Job σ T} {jobs : List Job}

theorem Child.Sound.mono (h : c.Sound M patience grace now) (hnow : now ≤ now') :
    c.Sound M patience grace now' :=
  ⟨h.run, h.reacted, h.signalled, h.killed, h.exited, h.died,
    fun t ht => (h.past t ht).trans hnow⟩

/-- A child launched now is after those that are over. -/
theorem Child.Sound.after_launch (h : c.Sound M patience grace now) (hc : c.Over) (j : Job) :
    (Child.launch M j now).After c := by
  cases hfate : c.fate with
  | alive =>
    obtain ⟨t, ht⟩ := Option.ne_none_iff_exists'.mp (hc hfate)
    exact ⟨t, .inr ht, h.past t (.inr ht)⟩
  | exited t | died t =>
    have hended : c.fate.ended = some t := by
      rw [hfate]
      rfl
    exact ⟨t, .inl hended, h.past t (.inl hended)⟩

theorem Place.Fits.mono {p : Place T} (h : p.Fits patience grace now children) (hnow : now ≤ now') :
    p.Fits patience grace now' children := by
  cases p with
  | between | waiting due | stopping due => exact h
  | signalling =>
    obtain ⟨c, older, hnewest, hsent, hover⟩ := h
    exact ⟨c, older, hnewest, hsent, hover.trans hnow⟩
  | killing =>
    obtain ⟨c, older, hnewest, hover⟩ := h
    refine ⟨c, older, hnewest, fun halive => ?_⟩
    obtain ⟨t, hsent, ht⟩ := hover halive
    exact ⟨t, hsent, ht.trans hnow⟩

theorem fits_of_follows {p : Place T} (h : List.Forall₂ Child.Follows children children')
    (hfits : p.Fits patience grace now children) : p.Fits patience grace now children' := by
  cases p with
  | between =>
    intro c' hc'
    obtain ⟨c, hc, hfollows⟩ := exists_follows h hc'
    exact hfollows.over_of (hfits c hc)
  | waiting due | signalling =>
    obtain ⟨c, older, rfl, hsent, hdue⟩ := hfits
    cases h with
    | cons hc _ => exact ⟨_, _, rfl, by rw [hc.signalled, hsent], by rw [hc.launched]; exact hdue⟩
  | stopping due | killing =>
    obtain ⟨c, older, rfl, hdue⟩ := hfits
    cases h with
    | @cons _ c' _ older' hc _ =>
      refine ⟨c', older', rfl, fun halive => ?_⟩
      rw [hc.signalled]
      refine hdue (by_contra fun hne => hne ?_)
      rw [← hc.not_alive hne, halive]

/-- **Step**, of a child. -/
theorem child_step (hs : c.Step M now c') (h : c.Sound M patience grace now) :
    c'.Sound M patience grace now ∧ c.Follows c' := by
  have hlive : ∀ {t}, c.fate = .alive → c.fate.ended ≠ some t := by
    intro t halive ht
    rw [halive] at ht
    cases ht
  cases hs with
  | step alive step =>
    refine ⟨⟨h.run.step step, h.reacted, h.signalled, h.killed, fun t ht => ?_, h.died, h.past⟩,
      rfl, rfl, rfl, rfl, .inl alive⟩
    exact absurd (congrArg Fate.ended ht) (hlive alive)
  | react alive sent first signal =>
    have hrun := h.run
    rw [first] at hrun
    refine ⟨⟨hrun.signal signal, fun _ => sent, h.signalled, h.killed, fun t ht => ?_, h.died,
      h.past⟩, rfl, rfl, rfl, rfl, .inl alive⟩
    exact absurd (congrArg Fate.ended ht) (hlive alive)
  | exit alive done =>
    refine ⟨⟨h.run, h.reacted, h.signalled, h.killed, fun _ _ => done, nofun, fun t ht => ?_⟩,
      rfl, rfl, rfl, rfl, .inl alive⟩
    rcases ht with hended | hkilled
    · rw [← Option.some_inj.mp hended]
    · exact h.past t (.inr hkilled)
  | die alive killed =>
    obtain ⟨t₀, ht₀⟩ := Option.ne_none_iff_exists'.mp killed
    have hle := h.past t₀ (.inr ht₀)
    refine ⟨⟨h.run, h.reacted, h.signalled, h.killed, nofun, fun t ht => ?_, fun t ht => ?_⟩,
      rfl, rfl, rfl, rfl, .inl alive⟩
    · cases ht
      exact ⟨t₀, ht₀, hle⟩
    · rcases ht with hended | hkilled
      · rw [← Option.some_inj.mp hended]
      · exact h.past t (.inr hkilled)

theorem sound_launch (j : Job) : (Child.launch M j now).Sound M patience grace now where
  run := .start
  reacted h := by cases h
  signalled t ht := by cases ht
  killed t ht := by cases ht
  exited t ht := by cases ht
  died t ht := by cases ht
  past t ht := by rcases ht with ht | ht <;> cases ht

/-- The signal is sent after `patience`. -/
theorem Child.Sound.signal (h : c.Sound M patience grace now) (hc : c.signalled = none)
    (hover : c.launched + patience ≤ now) :
    Child.Sound M patience grace now { c with signalled := some now } where
  run := h.run
  reacted _ := Option.some_ne_none now
  signalled t ht := by
    rw [← Option.some_inj.mp ht]
    exact hover
  killed t ht := by
    obtain ⟨t₀, hsent, -⟩ := h.killed t ht
    cases hc.symm.trans hsent
  exited := h.exited
  died := h.died
  past := h.past

/-- The child is killed `grace` after the signal. -/
theorem Child.Sound.kill (h : c.Sound M patience grace now) (hc : c.fate = .alive) {t₀ : T}
    (hsent : c.signalled = some t₀) (hover : t₀ + grace ≤ now) :
    Child.Sound M patience grace now { c with killed := some now } where
  run := h.run
  reacted := h.reacted
  signalled := h.signalled
  killed t ht := by
    cases ht
    exact ⟨t₀, hsent, hover⟩
  exited := h.exited
  died t ht := by cases hc.symm.trans ht
  past t ht := by
    rcases ht with hended | hkilled
    · exact h.past t (.inl hended)
    · exact (Option.some_inj.mp hkilled).ge

/-- Children with a sound one in another's place, which it follows. -/
theorem State.Sound.replace (h : s.Sound M patience grace jobs)
    (newer older : List (Child Job σ T)) (hmem : s.children = newer ++ c :: older)
    (hsound : c'.Sound M patience grace s.now) (hfollows : c.Follows c') :
    State.Sound M patience grace jobs { s with children := newer ++ c' :: older } := by
  have hall := follows_replace newer older hfollows
  have happart := h.apart
  have hjobs := h.jobs
  have hplace := h.place
  rw [hmem] at happart hjobs hplace
  refine ⟨?_, fun d hd => ?_, apart_of_follows hall happart, fits_of_follows hall hplace⟩
  · show ((newer ++ c' :: older).map Child.job).reverse ++ s.todo = jobs
    rw [map_job_of_follows hall, hjobs]
  · rcases List.mem_append.mp hd with hd | hd
    · exact h.children d (by rw [hmem]; exact List.mem_append_left _ hd)
    · rcases List.mem_cons.mp hd with rfl | hd
      · exact hsound
      · exact h.children d (by rw [hmem]; exact List.mem_append_right _ (.tail c hd))

theorem State.Sound.length_le (h : s.Sound M patience grace jobs) :
    s.children.length ≤ jobs.length := by
  rw [← h.jobs, List.length_append, List.length_reverse, List.length_map]
  exact Nat.le_add_right _ _

/-- The supervisor is through with all children but the newest. -/
theorem State.Sound.older_over (h : s.Sound M patience grace jobs) {older : List (Child Job σ T)}
    (hnewest : s.children = c :: older) : ∀ d ∈ older, d.Over := by
  have happart := h.apart
  rw [hnewest] at happart
  exact fun d hd => ((List.pairwise_cons.mp happart).1 d hd).over_of

/-- What the supervisor does to the newest child leaves the others apart from it. -/
theorem State.Sound.change (h : s.Sound M patience grace jobs) {older : List (Child Job σ T)}
    (hnewest : s.children = c :: older) (hsound : c'.Sound M patience grace s.now)
    (hjob : c'.job = c.job) (hlaunched : c'.launched = c.launched) {place : Place T}
    (hplace : place.Fits patience grace s.now (c' :: older)) :
    State.Sound M patience grace jobs { s with children := c' :: older, place := place } := by
  have hjobs := h.jobs
  have hchildren := h.children
  have happart := h.apart
  rw [hnewest] at hjobs hchildren happart
  obtain ⟨-, holder⟩ := List.forall_mem_cons.mp hchildren
  obtain ⟨hafter, hrest⟩ := List.pairwise_cons.mp happart
  refine ⟨?_, List.forall_mem_cons.mpr ⟨hsound, holder⟩,
    List.pairwise_cons.mpr ⟨fun d hd => ?_, hrest⟩, hplace⟩
  · show ((c' :: older).map Child.job).reverse ++ s.todo = jobs
    rw [List.map_cons, hjob, ← List.map_cons, hjobs]
  · obtain ⟨t, ht, hle⟩ := hafter d hd
    exact ⟨t, ht, by rw [hlaunched]; exact hle⟩

/-- **Step**, of the supervisor. -/
theorem own_step (hs : Own M patience grace s s') (h : s.Sound M patience grace jobs) :
    s'.Sound M patience grace jobs := by
  have hfits := h.place
  cases hs with
  | @launch j rest place todo =>
    rw [place] at hfits
    refine ⟨?_, fun d hd => ?_, List.pairwise_cons.mpr ⟨fun d hd => ?_, h.apart⟩,
      _, _, rfl, rfl, rfl⟩
    · show (j :: s.children.map Child.job).reverse ++ rest = jobs
      rw [List.reverse_cons, List.append_assoc, List.singleton_append, ← todo, h.jobs]
    · rcases List.mem_cons.mp hd with rfl | hd
      · exact sound_launch j
      · exact h.children d hd
    · exact (h.children d hd).after_launch (hfits d hd) j
  | reap place newest ended =>
    refine ⟨h.jobs, h.children, h.apart, ?_⟩
    rw [newest]
    exact List.forall_mem_cons.mpr ⟨fun halive => absurd halive ended, h.older_over newest⟩
  | expire place passed =>
    rw [place] at hfits
    obtain ⟨c, older, hnewest, hsent, hdue⟩ := hfits
    exact ⟨h.jobs, h.children, h.apart, c, older, hnewest, hsent, by rw [← hdue]; exact passed⟩
  | @signal c older place newest =>
    rw [place] at hfits
    obtain ⟨d, rest, hnewest, hsent, hover⟩ := hfits
    obtain ⟨rfl, rfl⟩ := List.cons.inj (newest.symm.trans hnewest)
    by_cases halive : c.fate = .alive
    · have hc := h.children c (by rw [newest]; exact List.mem_cons_self)
      rw [Child.signal_of_alive halive]
      exact h.change newest (hc.signal hsent hover) rfl rfl ⟨_, _, rfl, fun _ => ⟨_, rfl, rfl⟩⟩
    · rw [Child.signal_of_ended halive, ← newest]
      exact ⟨h.jobs, h.children, h.apart, c, older, newest, fun hfate => absurd hfate halive⟩
  | giveUp place passed =>
    rw [place] at hfits
    obtain ⟨c, older, hnewest, hdue⟩ := hfits
    refine ⟨h.jobs, h.children, h.apart, c, older, hnewest, fun halive => ?_⟩
    obtain ⟨t, hsent, rfl⟩ := hdue halive
    exact ⟨t, hsent, passed⟩
  | @kill c older place newest =>
    rw [place] at hfits
    obtain ⟨d, rest, hnewest, hover⟩ := hfits
    obtain ⟨rfl, rfl⟩ := List.cons.inj (newest.symm.trans hnewest)
    by_cases halive : c.fate = .alive
    · obtain ⟨t₀, hsent, ht₀⟩ := hover halive
      have hc := h.children c (by rw [newest]; exact List.mem_cons_self)
      rw [Child.kill_of_alive halive]
      refine h.change newest (hc.kill halive hsent ht₀) rfl rfl ?_
      exact List.forall_mem_cons.mpr ⟨fun _ => Option.some_ne_none _, h.older_over newest⟩
    · rw [Child.kill_of_ended halive, ← newest]
      refine ⟨h.jobs, h.children, h.apart, ?_⟩
      rw [newest]
      exact List.forall_mem_cons.mpr ⟨fun hfate => absurd hfate halive, h.older_over newest⟩

/-- **Step** of the system. -/
theorem sound_step (hs : Step M patience grace s s') (h : s.Sound M patience grace jobs) :
    s'.Sound M patience grace jobs := by
  cases hs with
  | alone alone =>
    cases alone with
    | tick later =>
      exact ⟨h.jobs, fun c hc => (h.children c hc).mono later, h.apart, h.place.mono later⟩
    | own own => exact own_step own h
  | @child newer older c c' mem step =>
    obtain ⟨hc', hfollows⟩ :=
      child_step step (h.children c (by rw [mem]; exact List.mem_append_right _ (.head older)))
    exact h.replace newer older mem hc' hfollows

variable (M patience grace) in
/-- **Every reachable state is sound.** -/
theorem reachable_sound {begin : T}
    (h : ReflTransGen (Step M patience grace) (State.init jobs begin) s) :
    s.Sound M patience grace jobs := by
  induction h with
  | refl =>
    refine ⟨rfl, fun c hc => ?_, .nil, fun c hc => ?_⟩ <;> cases hc
  | tail _ hstep ih => exact sound_step hstep ih

end Sound

/-! ### The end -/

/-- The steps of its own that the supervisor has left at most, for the child it is at. -/
def Place.left : Place T → ℕ
  | .between => 0
  | .waiting _ => 4
  | .signalling => 3
  | .stopping _ => 2
  | .killing => 1

def State.left (s : State Job σ T) : ℕ := 5 * s.todo.length + s.place.left

/-- The supervisor has gone through its jobs. -/
def State.Finished (s : State Job σ T) : Prop := s.place = .between ∧ s.todo = []

section Finish

variable {M : Machine Job σ} {patience grace : T} [Add T] [LinearOrder T] {s s' : State Job σ T}
  {jobs : List Job}

theorem own_left (hs : Own M patience grace s s') : s'.left < s.left := by
  cases hs with
  | launch place todo =>
    simp only [State.left, place, todo, Place.left, List.length_cons]
    omega
  | reap place =>
    rcases place with place | place <;> simp only [State.left, place, Place.left] <;> omega
  | expire place | signal place | giveUp place | kill place =>
    simp only [State.left, place, Place.left]
    omega

/-- Before its end the supervisor can go on, if not now then later. -/
theorem exists_own (h : s.Sound M patience grace jobs) (hs : ¬ s.Finished) :
    ∃ t s', s.now ≤ t ∧ Own M patience grace { s with now := t } s' := by
  have hfits := h.place
  cases hplace : s.place with
  | between =>
    cases htodo : s.todo with
    | nil => exact absurd ⟨hplace, htodo⟩ hs
    | cons j rest => exact ⟨s.now, _, le_rfl, .launch rfl rfl⟩
  | waiting due => exact ⟨max s.now due, _, le_max_left _ _, .expire rfl (le_max_right _ _)⟩
  | signalling =>
    rw [hplace] at hfits
    obtain ⟨c, older, hnewest, -⟩ := hfits
    exact ⟨s.now, _, le_rfl, .signal rfl hnewest⟩
  | stopping due => exact ⟨max s.now due, _, le_max_left _ _, .giveUp rfl (le_max_right _ _)⟩
  | killing =>
    rw [hplace] at hfits
    obtain ⟨c, older, hnewest, -⟩ := hfits
    exact ⟨s.now, _, le_rfl, .kill rfl hnewest⟩

/-- **The supervisor finishes**, also if no child ever does anything more. -/
theorem finishes (h : s.Sound M patience grace jobs) :
    ∃ s', ReflTransGen (Alone M patience grace) s s' ∧ s'.Sound M patience grace jobs ∧
      s'.Finished := by
  induction hn : s.left using Nat.strong_induction_on generalizing s with
  | _ n ih =>
    by_cases hs : s.Finished
    · exact ⟨s, .refl, h, hs⟩
    · obtain ⟨t, s₁, hle, hown⟩ := exists_own h hs
      have hlater := sound_step (.alone (.tick hle)) h
      have hleft : s₁.left < n := (own_left hown).trans_eq hn
      obtain ⟨s', hrun, hend⟩ := ih _ hleft (own_step hown hlater) rfl
      exact ⟨s', .head (.tick hle) (.head (.own hown) hrun), hend⟩

end Finish

/-! ### The time it takes -/

section Time

variable (M : Machine Job σ) (patience grace : T) [AddCommMonoid T] [LinearOrder T]

/-- Until when time may pass if the supervisor is prompt: to the end of a wait. -/
def Place.limit (now : T) : Place T → T
  | .waiting due | .stopping due => max now due
  | _ => now

/-- A step with a prompt supervisor. -/
def Prompt (s s' : State Job σ T) : Prop :=
  Step M patience grace s s' ∧ s'.now ≤ s.place.limit s.now

/-- The child the supervisor is at will have ended at `bound`. -/
def Place.InTime (bound now : T) : Place T → Prop
  | .between | .killing => now ≤ bound
  | .waiting due => now + grace ≤ bound ∧ due + grace ≤ bound
  | .signalling => now + grace ≤ bound
  | .stopping due => now ≤ bound ∧ due ≤ bound

variable {M patience grace} [IsOrderedAddMonoid T] {s s' : State Job σ T} {bound now now' : T}

theorem Place.InTime.le {p : Place T} (h : p.InTime grace bound now) (hgrace : 0 ≤ grace) :
    now ≤ bound := by
  have hadd : now ≤ now + grace := le_add_of_nonneg_right hgrace
  cases p with
  | between | killing => exact h
  | waiting due => exact hadd.trans h.1
  | signalling => exact hadd.trans h
  | stopping due => exact h.1

theorem Place.InTime.tick {p : Place T} (h : p.InTime grace bound now)
    (hlimit : now' ≤ p.limit now) : p.InTime grace bound now' := by
  cases p with
  | between | killing => exact hlimit.trans h
  | waiting due =>
    refine ⟨?_, h.2⟩
    calc now' + grace ≤ max now due + grace := add_le_add_left hlimit grace
      _ = max (now + grace) (due + grace) := (max_add_add_right now due grace).symm
      _ ≤ bound := max_le h.1 h.2
  | signalling => exact (add_le_add_left hlimit grace).trans h
  | stopping due => exact ⟨hlimit.trans (max_le h.1 h.2), h.2⟩

/-- The time for each child. -/
def perChild (patience grace : T) : T := max patience 0 + grace

theorem add_perChild {begin x : T} {n : ℕ} (hnow : now ≤ begin + n • perChild patience grace)
    (hx : x ≤ max patience 0) : now + x + grace ≤ begin + (n + 1) • perChild patience grace := by
  calc now + x + grace = now + (x + grace) := add_assoc now x grace
    _ ≤ begin + n • perChild patience grace + (max patience 0 + grace) :=
      add_le_add hnow (add_le_add_left hx grace)
    _ = begin + (n + 1) • perChild patience grace := by rw [succ_nsmul, add_assoc, perChild]

/-- **Step** of a system with a prompt supervisor. -/
theorem prompt_step {begin : T} (hgrace : 0 ≤ grace) (hs : Prompt M patience grace s s')
    (h : s.place.InTime grace (begin + s.children.length • perChild patience grace) s.now) :
    s'.place.InTime grace (begin + s'.children.length • perChild patience grace) s'.now := by
  obtain ⟨hstep, hlimit⟩ := hs
  cases hstep with
  | @child newer older c c' mem step =>
    rw [mem, List.length_append, List.length_cons] at h
    show s.place.InTime grace (begin + (newer ++ c' :: older).length • _) s.now
    rwa [List.length_append, List.length_cons]
  | alone alone =>
    cases alone with
    | tick later => exact h.tick hlimit
    | own own =>
      have hle := h.le hgrace
      cases own with
      | launch place todo =>
        have hzero := add_perChild hle (le_max_right patience 0)
        rw [add_zero] at hzero
        exact ⟨hzero, add_perChild hle (le_max_left patience 0)⟩
      | reap place newest ended => exact hle
      | expire place passed =>
        rw [place] at h
        exact h.1
      | @signal c older place newest =>
        rw [place, newest] at h
        refine ⟨?_, h⟩
        exact (le_add_of_nonneg_right hgrace).trans h
      | giveUp place passed => exact hle
      | @kill c older place newest =>
        rw [newest] at hle
        exact hle

/-- **The time it takes**: a prompt supervisor gives no child more than `patience` and `grace`. -/
theorem prompt_budget {jobs : List Job} {begin : T} (hgrace : 0 ≤ grace)
    (h : ReflTransGen (Prompt M patience grace) (State.init jobs begin) s) :
    s.now ≤ begin + jobs.length • perChild patience grace := by
  have hin : s.place.InTime grace (begin + s.children.length • perChild patience grace) s.now := by
    induction h with
    | refl => exact le_add_of_nonneg_right (zero_nsmul (perChild patience grace)).ge
    | tail _ hstep ih => exact prompt_step hgrace hstep ih
  have hsound : s.Sound M patience grace jobs :=
    reachable_sound M patience grace (h.lift id fun _ _ hstep => hstep.1)
  have hpos : 0 ≤ perChild patience grace := add_nonneg (le_max_right _ _) hgrace
  exact (hin.le hgrace).trans (add_le_add_right (nsmul_le_nsmul_left hpos hsound.length_le) begin)

end Time

end Supervisor

end InfraDemo
