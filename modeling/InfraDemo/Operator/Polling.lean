import InfraDemo.Lib.Steps
import InfraDemo.Lib.WorkQueue
import InfraDemo.Operator.Effects

/-!
# Polling — who calls the reconciler, and when

The manager of `SetupWithManager`: the cache that the API server's watch fills, the notifications of
its changes, `GenerationChangedPredicate`, the work queue and the calls in progress, at most one for
an object.  An object in the cache always has something that brings the next call (`object_minded`),
and as long as its spec stays as it was first seen, one thing only, so that a call comes 15 seconds
after the one before it has returned or later (`polls_spaced`).
-/

namespace InfraDemo.Operator

open InfraDemo.Go InfraDemo.WorkQueue

/-! ### Notifications -/

/-- A change of the cache, as the event handler is told. -/
inductive Notification where
  | created (wl : WorkloadLifecycle)
  | updated (old new : WorkloadLifecycle)
  | deleted (wl : WorkloadLifecycle)
  deriving DecidableEq

namespace Notification

def key : Notification → ObjectKey
  | created wl => wl.key
  | updated old _ => old.key
  | deleted wl => wl.key

/-- `GenerationChangedPredicate`: an update passes if the generation has changed, the others always. -/
def Passes : Notification → Prop
  | updated old new => new.generation ≠ old.generation
  | _ => True

instance : DecidablePred Passes
  | created _ | deleted _ => .isTrue trivial
  | updated old new => inferInstanceAs (Decidable (new.generation ≠ old.generation))

/-- The notification is about a change that the cache can see. -/
def Fits (cache : ObjectKey → Option WorkloadLifecycle) : Notification → Prop
  | created wl => cache wl.key = none
  | updated old new => cache old.key = some old ∧ new.key = old.key
  | deleted wl => cache wl.key = some wl

/-- What the cache holds at the key afterwards. -/
def stored : Notification → Option WorkloadLifecycle
  | created wl => some wl
  | updated _ new => some new
  | deleted _ => none

/-- The notification will put the key into the queue. -/
def Wakes (key : ObjectKey) (n : Notification) : Prop := n.key = key ∧ n.Passes

instance (key : ObjectKey) : DecidablePred (Wakes key) :=
  fun _ => inferInstanceAs (Decidable (_ ∧ _))

end Notification

/-! ### The manager -/

structure Manager where
  now : Time
  cache : ObjectKey → Option WorkloadLifecycle
  inbox : List Notification
  queue : ObjectKey → Slot Time
  running : ObjectKey → Option Running

/-- The manager before it has seen an object. -/
def Manager.init (now : Time) : Manager where
  now
  cache _ := none
  inbox := []
  queue _ := {}
  running _ := none

/-- What is assumed of controller-runtime: its queue, the answers of its client while the cache holds
what it holds, and what becomes of a key whose call has returned. -/
structure ControllerRuntime where
  queue : Queue Time
  Reads : (ObjectKey → Option WorkloadLifecycle) → (o : Op) → o.Ans → Prop
  Requeues : Time → Result × Option ApiError → Slot Time → Slot Time → Prop
  reads_found : ∀ {cache : ObjectKey → Option WorkloadLifecycle} {key : ObjectKey}
    {wl : WorkloadLifecycle}, Reads cache (.getWorkload key) (.ok wl) → cache key = some wl
  reads_missing : ∀ {cache : ObjectKey → Option WorkloadLifecycle} {key : ObjectKey}
    {err : ApiError}, Reads cache (.getWorkload key) (.error err) → err.notFound = true →
      cache key = none
  /-- an error is retried after some time -/
  requeues_error : ∀ {now : Time} {r : Result × Option ApiError} {q q' : Slot Time},
    Requeues now r q q' → r.2 ≠ none → ∃ time, now ≤ time ∧ queue.AddAfter time q q'
  /-- a result that asks for it is polled again -/
  requeues_after : ∀ {now : Time} {r : Result × Option ApiError} {q q' : Slot Time},
    Requeues now r q q' → r.2 = none → 0 < r.1.requeueAfter →
      queue.AddAfter (now + r.1.requeueAfter) q q'
  requeues_none : ∀ {now : Time} {r : Result × Option ApiError} {q q' : Slot Time},
    Requeues now r q q' → r.2 = none → ¬ 0 < r.1.requeueAfter → q' = q

/-- Objects are read from the cache: the one it holds, or NotFound if it holds none.  Reads can fail
in other ways, and the other calls are answered in any way. -/
def FromCache (cache : ObjectKey → Option WorkloadLifecycle) : (o : Op) → o.Ans → Prop
  | .getWorkload key, .ok wl => cache key = some wl
  | .getWorkload key, .error err => err.notFound = true → cache key = none
  | _, _ => True

/-- One that behaves so. -/
def ControllerRuntime.standard : ControllerRuntime where
  queue := .apart
  Reads := FromCache
  Requeues now r q q' :=
    if r.2 ≠ none then ∃ time, now ≤ time ∧ Queue.apart.AddAfter time q q'
    else if 0 < r.1.requeueAfter then Queue.apart.AddAfter (now + r.1.requeueAfter) q q'
    else q' = q
  reads_found h := h
  reads_missing h := h
  requeues_error h herr := by rwa [if_pos herr] at h
  requeues_after h herr hpos := by rwa [if_neg (not_not.mpr herr), if_pos hpos] at h
  requeues_none h herr hpos := by rwa [if_neg (not_not.mpr herr), if_neg hpos] at h

inductive Manager.Label where
  | observe (n : Notification)
  | take (key : ObjectKey)
  | finish (key : ObjectKey) (r : Result × Option ApiError)
  | other

/-- The step lets a notification in that will put the key into the queue. -/
def Manager.Label.Wakes (key : ObjectKey) : Manager.Label → Prop
  | observe n => n.Wakes key
  | _ => False

instance (key : ObjectKey) : DecidablePred (Manager.Label.Wakes key)
  | .observe n => inferInstanceAs (Decidable (n.Wakes key))
  | .take _ | .finish _ _ | .other => .isFalse id

variable (rt : Runtime) (C : ControllerRuntime)

/-- One step: the watch changes the cache, the event handler takes a notification, time passes, a
delay ends, a worker takes a key that has no call in progress, a call makes its next exchange or
returns. -/
inductive Manager.Step (m : Manager) : Manager.Label → Manager → Prop where
  | observe {n : Notification} (fits : n.Fits m.cache) :
      Step m (.observe n)
        { m with cache := Function.update m.cache n.key n.stored, inbox := m.inbox ++ [n] }
  | skip {n : Notification} {rest : List Notification} (inbox : m.inbox = n :: rest)
      (filtered : ¬ n.Passes) : Step m .other { m with inbox := rest }
  | enqueue {n : Notification} {rest : List Notification} {q : Slot Time}
      (inbox : m.inbox = n :: rest) (passes : n.Passes) (add : C.queue.Add (m.queue n.key) q) :
      Step m .other { m with inbox := rest, queue := Function.update m.queue n.key q }
  | wait {now : Time} (later : m.now ≤ now) : Step m .other { m with now }
  | fire {key : ObjectKey} {time : Time} {q : Slot Time}
      (timer : (m.queue key).timer = some time) (due : time ≤ m.now)
      (fire : C.queue.Fire (m.queue key) q) :
      Step m .other { m with queue := Function.update m.queue key q }
  | take {key : ObjectKey} {q : Slot Time} (ready : (m.queue key).dirty = true)
      (free : m.running key = none) (take : C.queue.Take (m.queue key) q) :
      Step m (.take key)
        { m with
          queue := Function.update m.queue key q
          running := Function.update m.running key (some ⟨reconcile rt key, []⟩) }
  | exchange {key : ObjectKey} {o : Op} {k : o.Ans → Action (Result × Option ApiError)}
      {h : List Exchange} {x : o.Ans} (next : m.running key = some ⟨.call o k, h⟩)
      (answer : C.Reads m.cache o x) :
      Step m .other
        { m with running := Function.update m.running key (some ⟨k x, h ++ [⟨o, x⟩]⟩) }
  | finish {key : ObjectKey} {r : Result × Option ApiError} {h : List Exchange} {q : Slot Time}
      (ended : m.running key = some ⟨.done r, h⟩) (requeue : C.Requeues m.now r (m.queue key) q) :
      Step m (.finish key r)
        { m with
          queue := Function.update m.queue key q
          running := Function.update m.running key none }

/-! ### What a call asks for -/

/-- The result brings the next call. -/
def Asks (r : Result × Option ApiError) : Prop := r.1.requeueAfter = 15 ∨ r.2 ≠ none

/-- A call with its object asks for the next one after 15 seconds. -/
theorem reconcile_asks (req : ObjectKey) : ∃ rest : WorkloadLifecycle → Action _,
    (reconcile rt req = do
      match ← getWorkload req with
      | .error err => pure ({}, ignoreNotFound err)
      | .ok wl => rest wl) ∧
    ∀ wl h, Prog.Ensures (fun _ _ => True) AnyAnswer (rest wl) h
      fun r _ => r.1.requeueAfter = 15 := by
  refine ⟨_, rfl, fun wl h => ?_⟩
  have hlast : ∀ {α : Type} (p : Action α) (err : α → Option ApiError) (h : List Exchange),
      Prog.Ensures (fun _ _ => True) AnyAnswer
        (p >>= fun a => pure (({ requeueAfter := 15 } : Result), err a)) h
        fun r _ => r.1.requeueAfter = 15 := by
    intro α p err h
    rw [Prog.ensures_bind]
    exact (Prog.ensures_any p h).mono fun _ _ _ => rfl
  rw [Prog.ensures_bind]
  refine (Prog.ensures_any _ _).mono fun metrics h _ => ?_
  cases metrics with
  | error err =>
    rw [Prog.ensures_bind]
    exact (Prog.ensures_any _ _).mono fun _ h _ => hlast _ (fun _ => none) h
  | ok metrics =>
    simp only [Prog.ensures_bind]
    refine (Prog.ensures_any _ _).mono fun _ h _ => ?_
    refine (Prog.ensures_any _ _).mono fun answer h _ => ?_
    cases answer with
    | error err =>
      rw [Prog.ensures_bind]
      exact (Prog.ensures_any _ _).mono fun _ h _ => hlast _ (fun _ => none) h
    | ok read =>
      rw [Prog.ensures_bind]
      exact (Prog.ensures_any _ _).mono fun _ h _ => hlast _ id h

/-- A call in progress that has not missed its object. -/
def Running.Asking (key : ObjectKey) (r : Running) : Prop :=
  r = ⟨reconcile rt key, []⟩ ∨
    r.rest.Ensures (fun _ _ => True) AnyAnswer r.history fun r _ => Asks r

variable {rt} {C} {m m' : Manager} {l : Manager.Label} {key : ObjectKey}

/-- An exchange keeps a call asking, unless it is the one that misses the object. -/
theorem asking_exchange {o : Op} {k : o.Ans → Action (Result × Option ApiError)}
    {h : List Exchange} {x : o.Ans} (hr : Running.Asking rt key ⟨.call o k, h⟩)
    (hx : C.Reads m.cache o x) :
    Running.Asking rt key ⟨k x, h ++ [⟨o, x⟩]⟩ ∨ m.cache key = none ∧ k x = .done ({}, none) := by
  rcases hr with hstart | hensures
  · obtain ⟨rest, hrest, hasks⟩ := reconcile_asks rt key
    rw [hrest] at hstart
    injection hstart with hcall hnil
    cases hcall
    cases x with
    | ok wl => exact .inl (.inr ((hasks wl _).mono fun _ _ hr => .inl hr))
    | error err =>
      cases hfound : err.notFound with
      | true =>
        refine .inr ⟨C.reads_missing hx hfound, ?_⟩
        show Prog.done (({}, ignoreNotFound err) : Result × Option ApiError) = _
        rw [ignoreNotFound, if_pos hfound]
      | false =>
        refine .inl (.inr (.inr ?_))
        rw [ignoreNotFound, if_neg (by rw [hfound]; exact Bool.false_ne_true)]
        exact Option.some_ne_none err
  · exact .inl (.inr (hensures.2 x trivial))

theorem asking_done {r : Result × Option ApiError} {h : List Exchange}
    (hr : Running.Asking rt key ⟨.done r, h⟩) : Asks r := by
  rcases hr with hstart | hensures
  · obtain ⟨rest, hrest, -⟩ := reconcile_asks rt key
    rw [hrest] at hstart
    injection hstart with hcall
    cases hcall
  · exact hensures

/-- An addition of the key, or its slot as it was. -/
theorem ControllerRuntime.requeues_cases {r : Result × Option ApiError} {now : Time}
    {q q' : Slot Time} (h : C.Requeues now r q q') :
    (∃ time, C.queue.AddAfter time q q') ∨ ¬ Asks r ∧ q' = q := by
  by_cases herr : r.2 = none
  · by_cases hpos : 0 < r.1.requeueAfter
    · exact .inl ⟨_, C.requeues_after h herr hpos⟩
    · refine .inr ⟨?_, C.requeues_none h herr hpos⟩
      rintro (h15 | hne)
      · rw [h15] at hpos
        exact hpos (by decide)
      · exact hne herr
  · obtain ⟨time, -, hadd⟩ := C.requeues_error h herr
    exact .inl ⟨time, hadd⟩

/-! ### Every object is polled -/

variable (rt) in
/-- Something will bring a call for the key. -/
def Manager.Minds (m : Manager) (key : ObjectKey) : Prop :=
  (m.queue key).Scheduled ∨ (∃ wl, .created wl ∈ m.inbox ∧ wl.key = key) ∨
    ∃ r, m.running key = some r ∧ r.Asking rt key

/-- What a step leaves of the place in the queue, the notifications and the call of a key keeps it
minded. -/
theorem Manager.Minds.frame (h : m.Minds rt key)
    (hqueue : (m.queue key).Scheduled → (m'.queue key).Scheduled)
    (hinbox : ∀ wl, .created wl ∈ m.inbox → wl.key = key →
      .created wl ∈ m'.inbox ∨ (m'.queue key).Scheduled)
    (hrunning : ∀ r, m.running key = some r → r.Asking rt key →
      (∃ r', m'.running key = some r' ∧ r'.Asking rt key) ∨ (m'.queue key).Scheduled) :
    m'.Minds rt key := by
  rcases h with h | ⟨wl, hwl, hk⟩ | ⟨r, hr, hask⟩
  · exact .inl (hqueue h)
  · rcases hinbox wl hwl hk with h | h
    · exact .inr (.inl ⟨wl, h, hk⟩)
    · exact .inl h
  · rcases hrunning r hr hask with h | h
    · exact .inr (.inr h)
    · exact .inl h

theorem minded_step (h : m.Step rt C l m') (hm : ∀ key, m.cache key ≠ none → m.Minds rt key) :
    ∀ key, m'.cache key ≠ none → m'.Minds rt key := by
  intro key hkey
  cases h with
  | @observe n fits =>
    have hframe : m.cache key ≠ none → Manager.Minds rt { m with
        cache := Function.update m.cache n.key n.stored, inbox := m.inbox ++ [n] } key :=
      fun hcached => (hm key hcached).frame id (fun _ hwl _ => .inl (List.mem_append_left _ hwl))
        fun r hr hask => .inl ⟨r, hr, hask⟩
    by_cases hn : key = n.key
    · subst hn
      cases n with
      | created wl => exact .inr (.inl ⟨wl, by simp, rfl⟩)
      | updated old new =>
        obtain ⟨hold, -⟩ := fits
        exact hframe (by rw [Notification.key, hold]; exact Option.some_ne_none old)
      | deleted wl => exact absurd (Function.update_self ..) hkey
    · simp only [Function.update_of_ne hn] at hkey
      exact hframe hkey
  | @skip n rest inbox filtered =>
    refine (hm key hkey).frame id (fun wl hwl _ => ?_) fun r hr hask => .inl ⟨r, hr, hask⟩
    rw [inbox] at hwl
    rcases List.mem_cons.mp hwl with rfl | hwl
    · exact absurd trivial filtered
    · exact .inl hwl
  | @enqueue n rest q inbox passes add =>
    by_cases hn : key = n.key
    · subst hn
      refine .inl ?_
      simp only [Function.update_self]
      exact C.queue.add_scheduled add
    · refine (hm key hkey).frame ?_ (fun wl hwl hk => ?_) fun r hr hask => .inl ⟨r, hr, hask⟩
      · simp only [Function.update_of_ne hn]
        exact id
      · rw [inbox] at hwl
        rcases List.mem_cons.mp hwl with rfl | hwl
        · exact absurd hk.symm hn
        · exact .inl hwl
  | wait later => exact hm key hkey
  | @fire key' time q timer due fire =>
    refine (hm key hkey).frame (fun h => ?_) (fun wl hwl _ => .inl hwl)
      fun r hr hask => .inl ⟨r, hr, hask⟩
    by_cases hk : key = key'
    · subst hk
      simp only [Function.update_self]
      exact C.queue.fire_scheduled fire
    · simp only [Function.update_of_ne hk]
      exact h
  | @take key' q ready free take =>
    by_cases hk : key = key'
    · subst hk
      exact .inr (.inr ⟨_, Function.update_self .., .inl rfl⟩)
    · refine (hm key hkey).frame ?_ (fun wl hwl _ => .inl hwl) fun r hr hask => .inl ⟨r, ?_, hask⟩
      · simp only [Function.update_of_ne hk]
        exact id
      · exact (Function.update_of_ne hk ..).trans hr
  | @exchange key' o k h x next answer =>
    refine (hm key hkey).frame id (fun wl hwl _ => .inl hwl) fun r hr hask => .inl ?_
    by_cases hk : key = key'
    · subst hk
      rw [next, Option.some_inj] at hr
      subst hr
      rcases asking_exchange hask answer with hask' | ⟨hnone, -⟩
      · exact ⟨_, Function.update_self .., hask'⟩
      · exact absurd hnone hkey
    · exact ⟨r, (Function.update_of_ne hk ..).trans hr, hask⟩
  | @finish key' r h q ended requeue =>
    by_cases hk : key = key'
    · subst hk
      refine (hm key hkey).frame (fun h => ?_) (fun wl hwl _ => .inl hwl) fun r' hr hask => .inr ?_
      · simp only [Function.update_self]
        rcases C.requeues_cases requeue with ⟨time, hadd⟩ | ⟨-, rfl⟩
        · exact C.queue.addAfter_scheduled hadd
        · exact h
      · rw [ended, Option.some_inj] at hr
        subst hr
        simp only [Function.update_self]
        rcases C.requeues_cases requeue with ⟨time, hadd⟩ | ⟨hno, -⟩
        · exact C.queue.addAfter_scheduled hadd
        · exact absurd (asking_done hask) hno
    · refine (hm key hkey).frame ?_ (fun wl hwl _ => .inl hwl) fun r hr hask => .inl ⟨r, ?_, hask⟩
      · simp only [Function.update_of_ne hk]
        exact id
      · exact (Function.update_of_ne hk ..).trans hr

/-- **Every object is polled**: in every state of the manager an object in its cache has a place in the
queue, a notification that will give it one, or a call in progress that will, however it is answered
from the cache. -/
theorem object_minded {t : Time} {ls : List Manager.Label}
    (h : Steps (Manager.Step rt C) (.init t) ls m) (hkey : m.cache key ≠ none) : m.Minds rt key :=
  h.invariant (I := fun m => ∀ key, m.cache key ≠ none → m.Minds rt key)
    (fun _ _ _ hm hstep => minded_step hstep hm) (fun _ hnone => absurd rfl hnone) key hkey

/-! ### One loop for an object -/

/-- What will bring a call for the key: a place in the queue, a delay, a call in progress and the
notifications that wake it. -/
def Manager.tokens (m : Manager) (key : ObjectKey) : ℕ :=
  (m.queue key).tokens + (m.running key).isSome.toNat + m.inbox.countP (Notification.Wakes key)

/-- Only a notification that wakes the key makes more. -/
theorem tokens_step (h : m.Step rt C l m') (key : ObjectKey) :
    m'.tokens key ≤ m.tokens key + if l.Wakes key then 1 else 0 := by
  cases h with
  | @observe n fits =>
    by_cases hw : n.Wakes key
    · have hl : (Manager.Label.observe n).Wakes key := hw
      simp [Manager.tokens, hw, hl, Nat.add_assoc]
    · simp [Manager.tokens, hw]
  | @skip n rest inbox filtered =>
    have hwakes : ¬ n.Wakes key := fun h => filtered h.2
    simp [Manager.tokens, inbox, hwakes]
  | @enqueue n rest q inbox passes add =>
    by_cases hn : key = n.key
    · subst hn
      have hwakes : n.Wakes n.key := ⟨rfl, passes⟩
      have hadd := C.queue.tokens_add_le add
      simp only [Manager.tokens, inbox, Function.update_self, List.countP_cons, hwakes,
        decide_true, if_true]
      omega
    · have hwakes : ¬ n.Wakes key := fun h => hn h.1.symm
      simp [Manager.tokens, inbox, hwakes, Function.update_of_ne hn]
  | wait later => exact Nat.le_add_right _ _
  | @fire key' time q timer due fire =>
    by_cases hk : key = key'
    · subst hk
      have hfire := C.queue.tokens_fire_le fire (by rw [timer]; exact Option.some_ne_none time)
      simp only [Manager.tokens, Function.update_self]
      omega
    · simp [Manager.tokens, Function.update_of_ne hk]
  | @take key' q ready free take =>
    by_cases hk : key = key'
    · subst hk
      have htake := C.queue.tokens_take take ready
      simp only [Manager.tokens, Function.update_self, Option.isSome_some, Bool.toNat_true]
      omega
    · simp [Manager.tokens, Function.update_of_ne hk]
  | @exchange key' o k h x next answer =>
    by_cases hk : key = key'
    · subst hk
      simp [Manager.tokens, next]
    · simp [Manager.tokens, Function.update_of_ne hk]
  | @finish key' r h q ended requeue =>
    by_cases hk : key = key'
    · subst hk
      have hle : q.tokens ≤ (m.queue key).tokens + 1 := by
        rcases C.requeues_cases requeue with ⟨time, hadd⟩ | ⟨-, rfl⟩
        · exact C.queue.tokens_addAfter_le hadd
        · exact Nat.le_succ _
      simp only [Manager.tokens, Function.update_self, ended, Option.isSome_some, Option.isSome_none,
        Bool.toNat_true, Bool.toNat_false]
      omega
    · simp [Manager.tokens, Function.update_of_ne hk]

theorem tokens_le {t : Time} {ls : List Manager.Label} (h : Steps (Manager.Step rt C) (.init t) ls m)
    (key : ObjectKey) : m.tokens key ≤ ls.countP (Manager.Label.Wakes key) := by
  induction h with
  | nil => exact Nat.zero_le _
  | @concat ls l m m' run last ih =>
    have hstep := tokens_step last key
    rw [List.countP_append, List.countP_singleton]
    simp only [decide_eq_true_eq]
    omega

/-! ### The pause between two calls -/

/-- What every call in progress satisfies: it asks for the next one, or it has missed its object. -/
def Running.AsksOrMissed (rt : Runtime) (key : ObjectKey) (r : Running) : Prop :=
  r.Asking rt key ∨ r.rest = .done ({}, none)

theorem asksOrMissed_step (h : m.Step rt C l m')
    (hm : ∀ key r, m.running key = some r → r.AsksOrMissed rt key) :
    ∀ key r, m'.running key = some r → r.AsksOrMissed rt key := by
  intro key r hr
  cases h with
  | @take key' q ready free take =>
    by_cases hk : key = key'
    · subst hk
      simp only [Function.update_self, Option.some_inj] at hr
      subst hr
      exact .inl (.inl rfl)
    · simp only [Function.update_of_ne hk] at hr
      exact hm key r hr
  | @exchange key' o k h x next answer =>
    by_cases hk : key = key'
    · subst hk
      simp only [Function.update_self, Option.some_inj] at hr
      subst hr
      rcases hm key _ next with hask | hmissed
      · exact (asking_exchange hask answer).imp_right And.right
      · cases hmissed
    · simp only [Function.update_of_ne hk] at hr
      exact hm key r hr
  | @finish key' r' h q ended requeue =>
    by_cases hk : key = key'
    · subst hk
      simp only [Function.update_self] at hr
      cases hr
    · simp only [Function.update_of_ne hk] at hr
      exact hm key r hr
  | _ => exact hm key r hr

/-- The key rests until `time`: nothing asks for it, or it waits for this time, or the time has come. -/
inductive Manager.RestsUntil (m : Manager) (key : ObjectKey) (time : Time) : Prop where
  | gone (none : m.tokens key = 0)
  | waits (one : m.tokens key = 1) (timer : (m.queue key).timer = some time)
  | due (due : time ≤ m.now)

theorem RestsUntil.step {time : Time} (h : m.Step rt C l m') (hl : ¬ l.Wakes key)
    (hm : m.RestsUntil key time) : m'.RestsUntil key time := by
  have htokens := tokens_step h key
  rw [if_neg hl, Nat.add_zero] at htokens
  cases hm with
  | gone hnone => exact .gone (by omega)
  | waits hone htimer =>
    by_cases hzero : m'.tokens key = 0
    · exact .gone hzero
    have hone' : m'.tokens key = 1 := by omega
    -- the one thing that asks for the key is the delay
    have hslot : (m.queue key).tokens = 1 + (m.queue key).dirty.toNat := by
      rw [Slot.tokens, htimer]
      exact Nat.add_comm _ _
    simp only [Manager.tokens] at hone
    cases h with
    | @enqueue n rest q inbox passes add =>
      by_cases hn : key = n.key
      · subst hn
        have hwakes : n.Wakes n.key := ⟨rfl, passes⟩
        rw [inbox, List.countP_cons, if_pos (decide_eq_true hwakes)] at hone
        omega
      · refine .waits hone' ?_
        simp only [Function.update_of_ne hn]
        exact htimer
    | wait later => exact .waits hone' htimer
    | @fire key' time' q timer due fire =>
      by_cases hk : key = key'
      · subst hk
        rw [htimer, Option.some_inj] at timer
        subst timer
        exact .due due
      · refine .waits hone' ?_
        simp only [Function.update_of_ne hk]
        exact htimer
    | @take key' q ready free take =>
      by_cases hk : key = key'
      · subst hk
        rw [ready, Bool.toNat_true] at hslot
        omega
      · refine .waits hone' ?_
        simp only [Function.update_of_ne hk]
        exact htimer
    | @finish key' r h q ended requeue =>
      by_cases hk : key = key'
      · subst hk
        rw [ended, Option.isSome_some, Bool.toNat_true] at hone
        omega
      · refine .waits hone' ?_
        simp only [Function.update_of_ne hk]
        exact htimer
    | _ => exact .waits hone' htimer
  | due hdue =>
    refine .due ?_
    cases h with
    | wait later => exact hdue.trans later
    | _ => exact hdue

/-- After a call that nothing else would follow the key rests for 15 seconds. -/
theorem restsUntil_finish {m₁ : Manager} {r : Result × Option ApiError}
    (hone : m.tokens key ≤ 1) (hm : ∀ r, m.running key = some r → r.AsksOrMissed rt key)
    (hend : m.Step rt C (.finish key r) m₁) (hr : r.2 = none) :
    m₁.RestsUntil key (m.now + 15) := by
  cases hend with
  | @finish _ _ h q ended requeue =>
    simp only [Manager.tokens, ended, Option.isSome_some, Bool.toNat_true] at hone
    have hslot : (m.queue key).tokens = 0 := by omega
    have hinbox : m.inbox.countP (Notification.Wakes key) = 0 := by omega
    rcases hm _ ended with hask | hmissed
    · have h15 : r.1.requeueAfter = 15 := (asking_done hask).resolve_right (absurd hr)
      have hadd := C.requeues_after requeue hr (by rw [h15]; decide)
      rw [h15] at hadd
      obtain ⟨hdirty, htimer⟩ := C.queue.addAfter_eq hadd hslot
      refine .waits ?_ ?_
      · simp [Manager.tokens, hinbox, Slot.tokens, hdirty, htimer]
      · simpa using htimer
    · cases hmissed
      have hsame : q = m.queue key := C.requeues_none requeue rfl (by decide)
      refine .gone ?_
      simp [Manager.tokens, hinbox, hsame, hslot]

/-- **Calls are spaced.**  In a run of the manager that lets in one notification that wakes the key,
the call that follows one without an error begins 15 seconds after its end or later. -/
theorem polls_spaced {t : Time} {ls ls' : List Manager.Label} {m₁ m₂ m₃ : Manager}
    {r : Result × Option ApiError} (h : Steps (Manager.Step rt C) (.init t) ls m)
    (hend : m.Step rt C (.finish key r) m₁) (hr : r.2 = none)
    (hrun : Steps (Manager.Step rt C) m₁ ls' m₂) (hnext : m₂.Step rt C (.take key) m₃)
    (hwakes : (ls ++ ls').countP (Manager.Label.Wakes key) ≤ 1) : m.now + 15 ≤ m₂.now := by
  rw [List.countP_append] at hwakes
  have hone := tokens_le h key
  have hsound := h.invariant
    (I := fun m => ∀ key r, m.running key = some r → r.AsksOrMissed rt key)
    (fun _ _ _ hm hstep => asksOrMissed_step hstep hm) fun _ _ hnone => by cases hnone
  have hrest := restsUntil_finish (by omega) (hsound key) hend hr
  have hquiet : ∀ l ∈ ls', ¬ l.Wakes key := by
    have hpos : 1 ≤ m.tokens key := by
      cases hend with
      | finish ended requeue =>
        simp only [Manager.tokens, ended, Option.isSome_some, Bool.toNat_true]
        omega
    have hzero : ls'.countP (Manager.Label.Wakes key) = 0 := by omega
    intro l hl
    simpa using List.countP_eq_zero.mp hzero l hl
  have hrest₂ : m₂.RestsUntil key (m.now + 15) := by
    clear hnext hwakes
    induction hrun with
    | nil => exact hrest
    | concat _ last ih =>
      exact RestsUntil.step last (hquiet _ (by simp)) (ih fun l hl => hquiet l (by simp [hl]))
  cases hnext with
  | take ready free take =>
    cases hrest₂ with
    | gone none =>
      simp only [Manager.tokens, Slot.tokens, ready, Bool.toNat_true] at none
      omega
    | waits one timer =>
      simp only [Manager.tokens, Slot.tokens, ready, timer, Option.isSome_some,
        Bool.toNat_true] at one
      omega
    | due due => exact due

/-! ### A run -/

variable (rt) in
/-- A call that is answered as the cache answers it runs through. -/
theorem exchange_run {p : Action (Result × Option ApiError)} {t : List Exchange}
    {r : Result × Option ApiError} (hp : Prog.Returns p t r) :
    ∀ {m : Manager} {h : List Exchange}, (∀ e ∈ t, FromCache m.cache e.1 e.2) →
      m.running key = some ⟨p, h⟩ →
      ∃ ls, Steps (Manager.Step rt .standard) m ls
        { m with running := Function.update m.running key (some ⟨.done r, h ++ t⟩) } ∧
        ls.countP (Manager.Label.Wakes key) = 0 := by
  induction hp with
  | done a =>
    intro m h _ hm
    refine ⟨[], ?_, rfl⟩
    rw [List.append_nil, ← hm, Function.update_eq_self]
    exact .nil
  | @call o k x t a rest ih =>
    intro m h hans hm
    have hstep : m.Step rt .standard .other _ := .exchange hm (hans ⟨o, x⟩ (by simp))
    obtain ⟨ls, hrun, hzero⟩ := ih (m := { m with
      running := Function.update m.running key (some ⟨k x, h ++ [⟨o, x⟩]⟩) })
      (h := h ++ [⟨o, x⟩]) (fun e he => hans e (by simp [he])) (Function.update_self ..)
    simp only [Function.update_idem, List.append_assoc, List.singleton_append] at hrun
    refine ⟨[.other] ++ ls, (Steps.single hstep).trans hrun, ?_⟩
    rw [List.countP_append, hzero]
    rfl

def sampleWorkload : WorkloadLifecycle := (World.fresh .sample (some 1)).wl

/-- A worker takes the sample after its creation. -/
theorem first_take : ∃ m, Steps (Manager.Step (.exact 0) .standard) (.init 0)
      [.observe (.created sampleWorkload), .other, .take sampleWorkload.key] m ∧
    m.now = 0 ∧ m.cache sampleWorkload.key = some sampleWorkload ∧
    m.queue sampleWorkload.key = {} ∧
    m.running sampleWorkload.key = some ⟨reconcile (.exact 0) sampleWorkload.key, []⟩ := by
  let m₁ : Manager := { Manager.init 0 with
    cache := Function.update (fun _ => none) sampleWorkload.key (some sampleWorkload)
    inbox := [.created sampleWorkload] }
  let m₂ : Manager := { m₁ with
    inbox := []
    queue := Function.update (fun _ => {}) sampleWorkload.key { dirty := true } }
  have hseen : (Manager.init 0).Step (.exact 0) .standard (.observe (.created sampleWorkload)) m₁ :=
    .observe (n := .created sampleWorkload) rfl
  have hqueued : m₁.Step (.exact 0) .standard .other m₂ :=
    .enqueue (n := .created sampleWorkload) (q := { dirty := true }) rfl trivial rfl
  have htaken : m₂.Step (.exact 0) .standard (.take sampleWorkload.key) _ :=
    .take (by simp [m₂]) rfl rfl
  refine ⟨_, ((Steps.single hseen).concat hqueued).concat htaken, rfl, ?_, ?_, ?_⟩
  · simp [m₂, m₁]
  · simp [m₂]
  · simp

theorem object_minded_sample : ∃ m, m.cache sampleWorkload.key ≠ none ∧
    Manager.Minds (.exact 0) m sampleWorkload.key := by
  obtain ⟨m, hrun, -, hcache, -, -⟩ := first_take
  have hcached : m.cache sampleWorkload.key ≠ none := by
    rw [hcache]
    exact Option.some_ne_none _
  exact ⟨m, hcached, object_minded hrun hcached⟩

/-- The metrics endpoint cannot be reached: the call reports it and has run through. -/
theorem first_call : ∃ m ls, Steps (Manager.Step (.exact 0) .standard) (.init 0) ls m ∧
    ls.countP (Manager.Label.Wakes sampleWorkload.key) = 1 ∧ m.now = 0 ∧
    m.queue sampleWorkload.key = {} ∧
    ∃ h, m.running sampleWorkload.key = some ⟨.done ({ requeueAfter := 15 }, none), h⟩ := by
  obtain ⟨m, hrun, hnow, hcache, hqueue, hrunning⟩ := first_take
  let w : World := .fresh .sample (some 1)
  let t : Tick := { metrics := .failed "connection refused" }
  let x : Exit := .metricsUnavailable "calling metrics endpoint: connection refused"
  have hx : Exits (.exact 0) w t x := .metricsUnavailable rfl rfl
  obtain ⟨hresult, htrace⟩ := reconcile_exits (.exact 0) hx
  have hrun' := Prog.returns_run (handle t) (reconcile (.exact 0) w.wl.key) w
  rw [hresult, htrace] at hrun'
  have hret : Prog.Returns (reconcile (.exact 0) sampleWorkload.key) (x.trace (.exact 0) w t)
    ({ requeueAfter := 15 }, none) := hrun'
  obtain ⟨ls, hcall, hzero⟩ := exchange_run (.exact 0) hret (h := []) (fun e he => by
    simp only [x, Exit.trace, Exit.update?, eventTrace, deployTrace, statusTrace, List.mem_cons,
      List.mem_append, List.mem_map, List.not_mem_nil, or_false, false_or] at he
    rcases he with rfl | rfl | ⟨event, -, rfl⟩ | hstatus
    · exact hcache
    · trivial
    · trivial
    · simp at hstatus
      rcases hstatus with rfl | rfl | rfl <;> trivial) hrunning
  refine ⟨_, _, hrun.trans hcall, ?_, hnow, hqueue, ?_⟩
  · rw [List.countP_append, hzero]
    decide
  · exact ⟨x.trace (.exact 0) w t, by simp⟩

/-- 15 seconds after its return the call is made again. -/
theorem polls_spaced_sample : ∃ m m₁ m₂ m₃ : Manager, ∃ r : Result × Option ApiError,
    m.Step (.exact 0) .standard (.finish sampleWorkload.key r) m₁ ∧
    m₂.Step (.exact 0) .standard (.take sampleWorkload.key) m₃ ∧ m.now + 15 ≤ m₂.now := by
  obtain ⟨m, ls, hrun, hwakes, hnow, hqueue, h, hrunning⟩ := first_call
  let m₁ : Manager := { m with
    queue := Function.update m.queue sampleWorkload.key { timer := some 15 }
    running := Function.update m.running sampleWorkload.key none }
  let m₂ : Manager := { m₁ with now := 15 }
  have hend : m.Step (.exact 0) .standard
      (.finish sampleWorkload.key ({ requeueAfter := 15 }, none)) m₁ := by
    refine .finish hrunning ?_
    rw [hqueue, hnow]
    rfl
  have hlater : m₁.Step (.exact 0) .standard .other m₂ :=
    .wait (by rw [show m₁.now = 0 from hnow]; decide)
  let m₃ : Manager := { m₂ with
    queue := Function.update m₂.queue sampleWorkload.key { dirty := true } }
  have htimer : (m₂.queue sampleWorkload.key).timer = some 15 := by simp [m₂, m₁]
  have hfired : m₂.Step (.exact 0) .standard .other m₃ := .fire htimer le_rfl rfl
  have htaken : m₃.Step (.exact 0) .standard (.take sampleWorkload.key) _ :=
    .take (by simp [m₃]) (by simp [m₃, m₂, m₁]) rfl
  refine ⟨m, m₁, _, _, _, hend, htaken, ?_⟩
  exact polls_spaced hrun hend rfl ((Steps.single hlater).concat hfired) htaken (by
    rw [List.countP_append, hwakes]
    decide)

end InfraDemo.Operator
