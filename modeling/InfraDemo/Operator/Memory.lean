import InfraDemo.Lib.Heap
import InfraDemo.Operator.Conditions
import InfraDemo.Operator.Exits

/-!
# Memory — the objects behind the values

A `WorkloadLifecycle` in memory has a slice of conditions and a pointer to a time, which a plain
assignment shares.  The client reads from a cache that all calls of `Reconcile` use, and
`recordStatus` writes into the slice; the generated `DeepCopyInto` lies between the two.  With it the
objects behave like the values of this development, in every interleaving (`run_values`).
-/

namespace InfraDemo.Operator

open Heap Slice

/-! ### Objects -/

structure Memory where
  arrays : Heap (List Condition)
  times : Heap Time

/-- A `WorkloadLifecycleStatus` with its slice and its pointer. -/
structure StatusRef where
  conditions : Option Slice
  observedKVCacheUsagePercent : Int32
  desiredReplicas : Int32
  lastScaleTime : Option ℕ
  lastTransitionReason : String

structure ObjectRef where
  key : ObjectKey
  generation : ℕ
  resourceVersion : ℕ
  spec : WorkloadLifecycleSpec
  status : StatusRef

def StatusRef.value (m : Memory) (status : StatusRef) : WorkloadLifecycleStatus where
  conditions := elems m.arrays status.conditions
  observedKVCacheUsagePercent := status.observedKVCacheUsagePercent
  desiredReplicas := status.desiredReplicas
  lastScaleTime := status.lastScaleTime.bind m.times.get?
  lastTransitionReason := status.lastTransitionReason

/-- What the object holds. -/
def ObjectRef.value (m : Memory) (o : ObjectRef) : WorkloadLifecycle where
  key := o.key
  generation := o.generation
  resourceVersion := o.resourceVersion
  spec := o.spec
  status := o.status.value m

/-! ### zz_generated.deepcopy.go -/

/-- The body of the branch for `Conditions`. -/
def copyConditions (h : Heap (List Condition)) (conditions : Option Slice) :
    Heap (List Condition) × Option Slice :=
  if conditions = none then (h, none) else make h (elems h conditions)

/-- The body of the branch for `LastScaleTime`. -/
def copyTime (h : Heap Time) : Option ℕ → Heap Time × Option ℕ
  | none => (h, none)
  | some a => (h.alloc ((h.get? a).getD 0), some h.fresh)

def StatusRef.deepCopyInto (m : Memory) (status : StatusRef) : Memory × StatusRef :=
  let conditions := copyConditions m.arrays status.conditions
  let lastScaleTime := copyTime m.times status.lastScaleTime
  (⟨conditions.1, lastScaleTime.1⟩,
    { status with conditions := conditions.2, lastScaleTime := lastScaleTime.2 })

def ObjectRef.deepCopyInto (m : Memory) (o : ObjectRef) : Memory × ObjectRef :=
  let status := o.status.deepCopyInto m
  (status.1, { o with status := status.2 })

/-! ### recordStatus -/

/-- `meta.SetStatusCondition` on a slice in memory: it leaves the conditions as on a list, and works on
the array of the slice or on a new one. -/
structure SliceSetter (setter : ConditionSetter) where
  set : Time → Heap (List Condition) → Option Slice → Condition →
    Heap (List Condition) × Option Slice
  result : ∀ {now : Time} {h : Heap (List Condition)} {s : Option Slice} {c : Condition},
    Valid h s → Slice.Result h s (setter.set now (elems h s) c) (set now h s c)

/-- A function that behaves so: a new condition is appended, and the existing one of the type is
updated where it is. -/
def setStatusConditionIn (spare : ℕ → List Condition) (now : Time) (h : Heap (List Condition))
    (s : Option Slice) (c : Condition) : Heap (List Condition) × Option Slice :=
  match (elems h s).findIdx? fun d => d.type = c.type with
  | none => append spare h s (c.stamp now)
  | some i => (store h s i ((((elems h s)[i]?).getD c).replace now c), s)

/-- The setter of lists, by the place of the type. -/
theorem ConditionSetter.set_findIdx (setter : ConditionSetter) (now : Time) (cs : List Condition)
    (c : Condition) : setter.set now cs c =
      match cs.findIdx? fun d => d.type = c.type with
      | none => cs ++ [c.stamp now]
      | some i => cs.set i ((cs[i]?.getD c).replace now c) := by
  rcases setter.set_cases now cs c with ⟨hne, hset⟩ | ⟨pre, first, post, rfl, hpre, htype, hset⟩
  · have hnone : cs.findIdx? (fun d => d.type = c.type) = none :=
      List.findIdx?_eq_none_iff.mpr fun d hd => decide_eq_false (hne d hd)
    rw [hset, hnone]
  · have hsome : (pre ++ first :: post).findIdx? (fun d => d.type = c.type) = some pre.length := by
      have hnone : pre.findIdx? (fun d => d.type = c.type) = none :=
        List.findIdx?_eq_none_iff.mpr fun d hd => decide_eq_false (hpre d hd)
      rw [List.findIdx?_append, hnone, List.findIdx?_cons, decide_eq_true htype]
      simp
    rw [hset, hsome]
    simp

def SliceSetter.standard (setter : ConditionSetter) (spare : ℕ → List Condition) :
    SliceSetter setter where
  set := setStatusConditionIn spare
  result := fun {now h s c} hv => by
    rw [ConditionSetter.set_findIdx]
    unfold setStatusConditionIn
    split
    · exact result_append spare hv _
    · exact result_store hv _ _

variable {setter : ConditionSetter} (conditions : SliceSetter setter)

/-- `wl.Status.LastScaleTime = &now` -/
def scaleTimeIn (h : Heap Time) (o : ObjectRef) (u : StatusUpdate) (now : Time) :
    Heap Time × Option ℕ :=
  if u.scaledNow then (h.alloc now, some h.fresh) else (h, o.status.lastScaleTime)

/-- What `recordStatus` writes before it submits the object. -/
def recordStatusIn (m : Memory) (o : ObjectRef) (u : StatusUpdate) (clock : Stamp → Time) :
    Memory × ObjectRef :=
  let lastScaleTime := scaleTimeIn m.times o u (clock .lastScaleTime)
  let available := conditions.set (clock .available) m.arrays o.status.conditions
    (u.condition o.generation availableType u.available)
  let degraded := conditions.set (clock .degraded) available.1 available.2
    (u.condition o.generation degradedType u.degraded)
  (⟨degraded.1, lastScaleTime.1⟩,
    { o with
      status :=
        { conditions := degraded.2
          observedKVCacheUsagePercent :=
            u.observedKVCacheUsagePercent.getD o.status.observedKVCacheUsagePercent
          desiredReplicas := u.desiredReplicas.getD o.status.desiredReplicas
          lastScaleTime := lastScaleTime.2
          lastTransitionReason := u.reason } })

/-! ### The cache and the calls -/

/-- Who holds an object: the cache, under a key, or a call, in its variable `wl`. -/
inductive Holder where
  | cache (key : ObjectKey)
  | call (i : ℕ)
  deriving DecidableEq

structure Objects where
  memory : Memory
  held : Holder → Option ObjectRef

def Objects.empty : Objects := ⟨⟨⟨[]⟩, ⟨[]⟩⟩, fun _ => none⟩

/-- An object decoded from the watch, in new cells. -/
def Memory.decode (m : Memory) (wl : WorkloadLifecycle) : Memory × ObjectRef :=
  let conditions :=
    if wl.status.conditions = [] then (m.arrays, none) else make m.arrays wl.status.conditions
  let lastScaleTime :=
    match wl.status.lastScaleTime with
    | none => (m.times, none)
    | some t => (m.times.alloc t, some m.times.fresh)
  (⟨conditions.1, lastScaleTime.1⟩,
    { key := wl.key
      generation := wl.generation
      resourceVersion := wl.resourceVersion
      spec := wl.spec
      status :=
        { conditions := conditions.2
          observedKVCacheUsagePercent := wl.status.observedKVCacheUsagePercent
          desiredReplicas := wl.status.desiredReplicas
          lastScaleTime := lastScaleTime.2
          lastTransitionReason := wl.status.lastTransitionReason } })

/-- What happens to the objects: the watch delivers or removes one, a call gets one from the cache, or
records a status on the one it has. -/
inductive Access where
  | deliver (key : ObjectKey) (wl : WorkloadLifecycle)
  | remove (key : ObjectKey)
  | fetch (i : ℕ) (key : ObjectKey)
  | record (i : ℕ) (u : StatusUpdate) (clock : Stamp → Time)

/-- `holder` gets the object of a result. -/
def Objects.put (s : Objects) (holder : Holder) (r : Memory × ObjectRef) : Objects :=
  ⟨r.1, Function.update s.held holder (some r.2)⟩

def Objects.drop (s : Objects) (holder : Holder) : Objects :=
  { s with held := Function.update s.held holder none }

def Objects.access (s : Objects) : Access → Objects
  | .deliver key wl => s.put (.cache key) (s.memory.decode wl)
  | .remove key => s.drop (.cache key)
  | .fetch i key =>
    match s.held (.cache key) with
    | none => s.drop (.call i)
    | some o => s.put (.call i) (o.deepCopyInto s.memory)
  | .record i u clock =>
    match s.held (.call i) with
    | none => s
    | some o => s.put (.call i) (recordStatusIn conditions s.memory o u clock)

/-! ### The same with values -/

variable (rt : Runtime)

/-- What the holders have. -/
abbrev Values := Holder → Option WorkloadLifecycle

def Values.access (v : Values) : Access → Values
  | .deliver key wl => Function.update v (.cache key) (some wl)
  | .remove key => Function.update v (.cache key) none
  | .fetch i key => Function.update v (.call i) (v (.cache key))
  | .record i u clock => Function.update v (.call i) ((v (.call i)).map (u.applyTo rt clock))

def Objects.values (s : Objects) : Values :=
  fun holder => (s.held holder).map (ObjectRef.value s.memory)

variable {rt} {conditions : SliceSetter rt.conditions} {m m' : Memory} {o : ObjectRef}
  {old : Option ObjectRef} {u : StatusUpdate} {clock : Stamp → Time} {v : WorkloadLifecycle}
  {r : Memory × ObjectRef} {s : Objects} {holder : Holder}

/-! ### One object -/

/-- The cell of the conditions. -/
def arrayOf (o : Option ObjectRef) : Option ℕ := addr? (o.bind fun o => o.status.conditions)

/-- The cell of the time. -/
def timeOf (o : Option ObjectRef) : Option ℕ := o.bind fun o => o.status.lastScaleTime

/-- What a holder of `old` does when it gets an object with the value `v`. -/
structure Gets (m : Memory) (old : Option ObjectRef) (v : WorkloadLifecycle)
    (r : Memory × ObjectRef) : Prop where
  arrays : Moves m.arrays (arrayOf old) r.1.arrays (arrayOf (some r.2))
  times : Moves m.times (timeOf old) r.1.times (timeOf (some r.2))
  conditions : Valid r.1.arrays r.2.status.conditions
  time : ∀ a, r.2.status.lastScaleTime = some a → a < r.1.times.fresh
  value : r.2.value r.1 = v

/-- The value of an object is in its cells. -/
theorem value_congr (harrays : ∀ a, arrayOf (some o) = some a → m'.arrays.get? a = m.arrays.get? a)
    (htimes : ∀ a, timeOf (some o) = some a → m'.times.get? a = m.times.get? a) :
    o.value m' = o.value m := by
  have hconditions : elems m'.arrays o.status.conditions = elems m.arrays o.status.conditions :=
    elems_congr harrays
  have htime : o.status.lastScaleTime.bind m'.times.get? =
      o.status.lastScaleTime.bind m.times.get? := by
    cases htime : o.status.lastScaleTime with
    | none => rfl
    | some a => exact htimes a htime
  simp only [ObjectRef.value, StatusRef.value, hconditions, htime]

theorem result_copyConditions (h : Heap (List Condition)) (dest cs : Option Slice) :
    Slice.Result h dest (elems h cs) (copyConditions h cs) := by
  unfold copyConditions
  split_ifs with hnil
  · rw [hnil]
    exact ⟨moves_none h _, trivial, rfl⟩
  · exact result_make h dest _

/-- The copy of a time is in a new cell. -/
theorem copyTime_spec (h : Heap Time) (dest t : Option ℕ) (ht : ∀ a, t = some a → a < h.fresh) :
    Moves h dest (copyTime h t).1 (copyTime h t).2 ∧
      (∀ a, (copyTime h t).2 = some a → a < (copyTime h t).1.fresh) ∧
      (copyTime h t).2.bind (copyTime h t).1.get? = t.bind h.get? := by
  cases t with
  | none => exact ⟨moves_none h dest, fun _ ha => (by cases ha), rfl⟩
  | some a =>
    have hsome : h.get? a = some ((h.get? a).getD 0) := by
      have hlt : a < h.cells.length := ht a rfl
      rw [Heap.get?, List.getElem?_eq_getElem hlt, Option.getD_some]
    refine ⟨moves_alloc h dest _, fun b hb => ?_, ?_⟩
    · obtain rfl := Option.some_inj.mp hb
      exact (fresh_alloc h _).symm ▸ Nat.lt_succ_self _
    · show (h.alloc _).get? h.fresh = h.get? a
      rw [get?_alloc_fresh, ← hsome]

/-- **DeepCopyInto**: the copy has the value of the object, in new cells. -/
theorem gets_deepCopyInto (old : Option ObjectRef)
    (ht : ∀ a, o.status.lastScaleTime = some a → a < m.times.fresh) :
    Gets m old (o.value m) (o.deepCopyInto m) := by
  have hconditions := result_copyConditions m.arrays (old.bind fun o => o.status.conditions)
    o.status.conditions
  obtain ⟨hmoves, hlt, hvalue⟩ := copyTime_spec m.times (timeOf old) o.status.lastScaleTime ht
  refine ⟨hconditions.moves, hmoves, hconditions.valid, hlt, ?_⟩
  simp only [ObjectRef.deepCopyInto, StatusRef.deepCopyInto, ObjectRef.value, StatusRef.value,
    hconditions.elems, hvalue]

theorem gets_decode (m : Memory) (old : Option ObjectRef) (wl : WorkloadLifecycle) :
    Gets m old wl (m.decode wl) := by
  have hconditions : Slice.Result m.arrays (old.bind fun o => o.status.conditions)
      wl.status.conditions (if wl.status.conditions = [] then (m.arrays, none)
        else make m.arrays wl.status.conditions) := by
    split_ifs with hnil
    · rw [hnil]
      exact ⟨moves_none _ _, trivial, rfl⟩
    · exact result_make _ _ _
  cases htime : wl.status.lastScaleTime with
  | none =>
    refine ⟨hconditions.moves, ?_, hconditions.valid, ?_, ?_⟩
    · simp only [Memory.decode, htime]
      exact moves_none _ _
    · simp only [Memory.decode, htime]
      exact fun _ ha => (by cases ha)
    · simp only [Memory.decode, ObjectRef.value, StatusRef.value, hconditions.elems, htime,
        Option.bind_none]
      rw [← htime]
  | some t =>
    refine ⟨hconditions.moves, ?_, hconditions.valid, ?_, ?_⟩
    · simp only [Memory.decode, htime]
      exact moves_alloc _ _ _
    · simp only [Memory.decode, htime]
      intro a ha
      obtain rfl := Option.some_inj.mp ha
      exact (fresh_alloc m.times t).symm ▸ Nat.lt_succ_self _
    · simp only [Memory.decode, ObjectRef.value, StatusRef.value, hconditions.elems, htime,
        Option.bind_some, get?_alloc_fresh]
      rw [← htime]

/-- **recordStatus** writes the cells of its own object, and leaves the value of the status update. -/
theorem gets_recordStatusIn (hv : Valid m.arrays o.status.conditions)
    (ht : ∀ a, o.status.lastScaleTime = some a → a < m.times.fresh) :
    Gets m (some o) (u.applyTo rt clock (o.value m)) (recordStatusIn conditions m o u clock) := by
  have havailable : Slice.Result m.arrays o.status.conditions _
      (conditions.set (clock .available) m.arrays o.status.conditions
        (u.condition o.generation availableType u.available)) := conditions.result hv
  have hdegraded : Slice.Result _ _ _ (conditions.set (clock .degraded) _ _
      (u.condition o.generation degradedType u.degraded)) := conditions.result havailable.valid
  have hconditions := havailable.trans hdegraded
  have htimes : Moves m.times o.status.lastScaleTime
      (scaleTimeIn m.times o u (clock .lastScaleTime)).1
      (scaleTimeIn m.times o u (clock .lastScaleTime)).2 := by
    unfold scaleTimeIn
    split_ifs
    · exact moves_alloc _ _ _
    · exact Moves.refl _ _
  refine ⟨hconditions.moves, htimes, hconditions.valid, ?_, ?_⟩
  · show ∀ a, (scaleTimeIn m.times o u (clock .lastScaleTime)).2 = some a →
      a < (scaleTimeIn m.times o u (clock .lastScaleTime)).1.fresh
    unfold scaleTimeIn
    split_ifs
    · intro a ha
      obtain rfl := Option.some_inj.mp ha
      exact (fresh_alloc m.times _).symm ▸ Nat.lt_succ_self _
    · exact ht
  · have htime : (scaleTimeIn m.times o u (clock .lastScaleTime)).2.bind
        (scaleTimeIn m.times o u (clock .lastScaleTime)).1.get? =
        if u.scaledNow then some (clock .lastScaleTime)
        else o.status.lastScaleTime.bind m.times.get? := by
      unfold scaleTimeIn
      split_ifs
      · exact get?_alloc_fresh _ _
      · rfl
    simp only [recordStatusIn, ObjectRef.value, StatusRef.value, hconditions.elems,
      havailable.elems, htime, StatusUpdate.applyTo]

/-! ### All objects -/

/-- The objects are well formed, and no two holders share a cell. -/
structure Objects.Sound (s : Objects) : Prop where
  arrays : Apart s.memory.arrays fun holder => arrayOf (s.held holder)
  times : Apart s.memory.times fun holder => timeOf (s.held holder)
  conditions : ∀ holder o, s.held holder = some o → Valid s.memory.arrays o.status.conditions

theorem Objects.sound_empty : Objects.empty.Sound :=
  ⟨⟨fun _ _ ha => (by cases ha), fun _ _ _ ha => (by cases ha)⟩,
    ⟨fun _ _ ha => (by cases ha), fun _ _ _ ha => (by cases ha)⟩, fun _ _ ho => (by cases ho)⟩

/-- The time of an object is in the heap. -/
theorem Objects.Sound.time (hs : s.Sound) (ho : s.held holder = some o) {a : ℕ}
    (ha : o.status.lastScaleTime = some a) : a < s.memory.times.fresh := by
  refine hs.times.bound holder a ?_
  show timeOf (s.held holder) = some a
  rw [ho]
  exact ha

/-- What one holder gets, the others do not see. -/
theorem Objects.Sound.put (hs : s.Sound) (hr : Gets s.memory (s.held holder) v r) :
    (s.put holder r).Sound ∧ (s.put holder r).values = Function.update s.values holder (some v) := by
  have hown : ∀ f : Option ObjectRef → Option ℕ, (fun k => f ((s.put holder r).held k)) =
      Function.update (fun k => f (s.held k)) holder (f (some r.2)) := by
    intro f
    funext k
    by_cases hk : k = holder
    · subst hk
      simp only [Objects.put, Function.update_self]
    · simp only [Objects.put, Function.update_of_ne hk]
  have hothers : ∀ k o, k ≠ holder → s.held k = some o →
      (∀ a, arrayOf (some o) = some a → r.1.arrays.get? a = s.memory.arrays.get? a) ∧
        ∀ a, timeOf (some o) = some a → r.1.times.get? a = s.memory.times.get? a := by
    intro k o hk ho
    refine ⟨fun a ha => hs.arrays.others hr.arrays hk ?_, fun a ha => hs.times.others hr.times hk ?_⟩
    · show arrayOf (s.held k) = some a
      rw [ho]
      exact ha
    · show timeOf (s.held k) = some a
      rw [ho]
      exact ha
  refine ⟨⟨?_, ?_, ?_⟩, ?_⟩
  · rw [hown arrayOf]
    exact hs.arrays.move hr.arrays fun a ha => hr.conditions.lt_fresh ha
  · rw [hown timeOf]
    exact hs.times.move hr.times hr.time
  · intro k o ho
    by_cases hk : k = holder
    · subst hk
      obtain rfl : r.2 = o := by simpa [Objects.put] using ho
      exact hr.conditions
    · have ho' : s.held k = some o := by simpa [Objects.put, Function.update_of_ne hk] using ho
      exact (hs.conditions k o ho').congr (hothers k o hk ho').1
  · funext k
    by_cases hk : k = holder
    · subst hk
      simp only [Objects.values, Objects.put, Function.update_self, Option.map_some, hr.value]
    · simp only [Objects.values, Objects.put, Function.update_of_ne hk]
      cases ho : s.held k with
      | none => rfl
      | some o =>
        obtain ⟨harrays, htimes⟩ := hothers k o hk ho
        simp only [Option.map_some, value_congr harrays htimes]

theorem Objects.Sound.drop (hs : s.Sound) (holder : Holder) :
    (s.drop holder).Sound ∧ (s.drop holder).values = Function.update s.values holder none := by
  have hown : ∀ f : Option ObjectRef → Option ℕ, (fun k => f ((s.drop holder).held k)) =
      Function.update (fun k => f (s.held k)) holder (f none) := by
    intro f
    funext k
    by_cases hk : k = holder
    · subst hk
      simp only [Objects.drop, Function.update_self]
    · simp only [Objects.drop, Function.update_of_ne hk]
  refine ⟨⟨?_, ?_, ?_⟩, ?_⟩
  · rw [hown arrayOf]
    exact hs.arrays.move (moves_none _ _) fun _ ha => (by cases ha)
  · rw [hown timeOf]
    exact hs.times.move (moves_none _ _) fun _ ha => (by cases ha)
  · intro k o ho
    by_cases hk : k = holder
    · subst hk
      simp [Objects.drop] at ho
    · exact hs.conditions k o (by simpa [Objects.drop, Function.update_of_ne hk] using ho)
  · funext k
    by_cases hk : k = holder
    · subst hk
      simp only [Objects.values, Objects.drop, Function.update_self, Option.map_none]
    · simp only [Objects.values, Objects.drop, Function.update_of_ne hk]

variable (conditions) in
/-- **Step**: an access does to the objects what it does to the values. -/
theorem Objects.Sound.access (hs : s.Sound) (a : Access) :
    (s.access conditions a).Sound ∧ (s.access conditions a).values = s.values.access rt a := by
  cases a with
  | deliver key wl => exact hs.put (gets_decode s.memory _ wl)
  | remove key => exact hs.drop (.cache key)
  | fetch i key =>
    cases ho : s.held (.cache key) with
    | none =>
      simpa only [Objects.access, Values.access, Objects.values, ho, Option.map_none]
        using hs.drop (.call i)
    | some o =>
      simpa only [Objects.access, Values.access, Objects.values, ho, Option.map_some]
        using hs.put (gets_deepCopyInto _ fun a ha => hs.time ho ha)
  | record i u clock =>
    cases ho : s.held (.call i) with
    | none =>
      refine ⟨by simpa only [Objects.access, ho] using hs, ?_⟩
      have hnone : s.values (.call i) = none := by rw [Objects.values, ho, Option.map_none]
      simp only [Objects.access, Values.access, ho, hnone, Option.map_none]
      rw [← hnone, Function.update_eq_self]
    | some o =>
      have hgets : Gets s.memory (s.held (.call i)) (u.applyTo rt clock (o.value s.memory))
          (recordStatusIn conditions s.memory o u clock) := by
        rw [ho]
        exact gets_recordStatusIn (hs.conditions _ o ho) fun a ha => hs.time ho ha
      simpa only [Objects.access, Values.access, Objects.values, ho, Option.map_some]
        using hs.put hgets

variable (conditions) in
/-- **Run**: objects that calls take from the cache as deep copies, and write in place, have the values
of this development in every interleaving of the calls and the watch. -/
theorem run_values (accesses : List Access) :
    (accesses.foldl (Objects.access conditions) .empty).values =
      accesses.foldl (Values.access rt) fun _ => none := by
  have hrun : ∀ s : Objects, s.Sound → (accesses.foldl (Objects.access conditions) s).values =
      accesses.foldl (Values.access rt) s.values := by
    induction accesses with
    | nil => exact fun s _ => rfl
    | cons a accesses ih =>
      intro s hs
      obtain ⟨hnext, hvalues⟩ := hs.access conditions a
      rw [List.foldl_cons, List.foldl_cons, ih _ hnext, hvalues]
  exact hrun .empty Objects.sound_empty

/-- With the plain assignment alone, what a call records is in the cache. -/
example :
    let key : ObjectKey := ⟨"default", "wl"⟩
    let holding : Condition := ⟨availableType, .conditionTrue, 1, some 0, reasonHolding, ""⟩
    let wl : WorkloadLifecycle := ⟨key, 1, 1, .sample, { conditions := [holding] }⟩
    let u : StatusUpdate :=
      ⟨reasonMetricsUnavailable, .conditionFalse, .conditionTrue, "", none, none, false⟩
    let standard := SliceSetter.standard .standard fun _ => []
    let s := Objects.empty.access standard (.deliver key wl)
    let assigned := (s.held (.cache key)).elim s fun o => s.put (.call 0) (s.memory, o)
    (s.access standard (.fetch 0 key)).values (.cache key) = some wl ∧
      ((s.access standard (.fetch 0 key)).access standard
        (.record 0 u fun _ => 5)).values (.cache key) = some wl ∧
      (assigned.access standard (.record 0 u fun _ => 5)).values (.cache key) ≠ some wl := by
  decide +kernel

end InfraDemo.Operator
