import InfraDemo.Operator.Types

/-!
# Conditions — what `meta.SetStatusCondition` leaves in the list

The setter either appends the new condition or updates the first one of its type in place
(`set_cases`).  The conditions of one type are those of the list before, except that the first of
the type set is the new one, with its transition time kept or renewed.
-/

namespace InfraDemo.Operator

/-- The conditions of a type, in order. -/
def ofType (type : String) (cs : List Condition) : List Condition :=
  cs.filter fun c => c.type = type

theorem findCondition_eq_head? (type : String) (cs : List Condition) :
    findCondition type cs = (ofType type cs).head? := by
  rw [findCondition, ofType, List.head?_filter]

section Replace

variable {now : Time} {old c : Condition}

@[simp] theorem stamp_type : (c.stamp now).type = c.type := rfl

@[simp] theorem replace_type : (old.replace now c).type = c.type := by
  unfold Condition.replace
  split_ifs <;> rfl

@[simp] theorem replace_status : (old.replace now c).status = c.status := by
  unfold Condition.replace
  split_ifs <;> rfl

@[simp] theorem replace_reason : (old.replace now c).reason = c.reason := by
  unfold Condition.replace
  split_ifs <;> rfl

@[simp] theorem replace_message : (old.replace now c).message = c.message := by
  unfold Condition.replace
  split_ifs <;> rfl

@[simp] theorem replace_observedGeneration :
    (old.replace now c).observedGeneration = c.observedGeneration := by
  unfold Condition.replace
  split_ifs <;> rfl

end Replace

namespace ConditionSetter

variable (setter : ConditionSetter) (now : Time) (cs : List Condition) (c : Condition)

/-- The two ways of the setter. -/
theorem set_cases : ((∀ d ∈ cs, d.type ≠ c.type) ∧ setter.set now cs c = cs ++ [c.stamp now]) ∨
    ∃ pre old post, cs = pre ++ old :: post ∧ (∀ d ∈ pre, d.type ≠ c.type) ∧ old.type = c.type ∧
      setter.set now cs c = pre ++ old.replace now c :: post := by
  by_cases h : ∀ d ∈ cs, d.type ≠ c.type
  · exact .inl ⟨h, setter.set_new h⟩
  · right
    have hsome : (cs.find? fun d => d.type = c.type).isSome := by
      rw [List.find?_isSome]
      push Not at h
      simpa using h
    obtain ⟨old, hold⟩ := Option.isSome_iff_exists.mp hsome
    obtain ⟨htype, pre, post, rfl, hpre⟩ := List.find?_eq_some_iff_append.mp hold
    simp only [decide_eq_true_eq] at htype
    simp only [Bool.not_eq_true', decide_eq_false_iff_not] at hpre
    exact ⟨pre, old, post, rfl, hpre, htype, setter.set_existing hpre htype⟩

/-- The conditions of the type that is set. -/
theorem ofType_set_self : ofType c.type (setter.set now cs c) =
    match ofType c.type cs with
    | [] => [c.stamp now]
    | old :: rest => old.replace now c :: rest := by
  have hnone : ∀ ds : List Condition, (∀ d ∈ ds, d.type ≠ c.type) → ofType c.type ds = [] := by
    intro ds hds
    rw [ofType, List.filter_eq_nil_iff]
    simpa using hds
  rcases setter.set_cases now cs c with ⟨h, hset⟩ | ⟨pre, old, post, rfl, hpre, htype, hset⟩
  · rw [hset, hnone cs h, ofType, List.filter_append]
    have := hnone cs h
    rw [ofType] at this
    simp [this]
  · have := hnone pre hpre
    rw [ofType] at this
    rw [hset, ofType, ofType, List.filter_append, List.filter_append, this]
    simp [htype]

/-- The condition found after its type was set. -/
theorem findCondition_set_self : (findCondition c.type (setter.set now cs c)).map Condition.status =
    some c.status := by
  rw [findCondition_eq_head?, ofType_set_self]
  cases ofType c.type cs with
  | nil => rfl
  | cons old rest => exact congrArg some replace_status

/-- The conditions of the other types. -/
theorem ofType_set_of_ne {type : String} (h : type ≠ c.type) :
    ofType type (setter.set now cs c) = ofType type cs := by
  rcases setter.set_cases now cs c with ⟨-, hset⟩ | ⟨pre, old, post, rfl, -, htype, hset⟩
  · rw [hset]
    simp [ofType, h.symm]
  · rw [hset]
    have hold : old.type ≠ type := by
      rw [htype]
      exact h.symm
    simp [ofType, h.symm, hold]

/-- The condition found after its type was set is the new one, with some transition time. -/
theorem findCondition_set : ∃ time, findCondition c.type (setter.set now cs c) =
    some { c with lastTransitionTime := time } := by
  rw [findCondition_eq_head?, ofType_set_self]
  cases ofType c.type cs with
  | nil => exact ⟨_, rfl⟩
  | cons old rest =>
    show ∃ time, some (old.replace now c) = _
    unfold Condition.replace
    split_ifs
    · exact ⟨_, rfl⟩
    · exact ⟨_, rfl⟩

variable {setter now cs c}

/-- Setting what is there already changes nothing. -/
theorem set_eq_self {time : Option Time}
    (h : findCondition c.type cs = some { c with lastTransitionTime := time }) :
    setter.set now cs c = cs := by
  obtain ⟨-, pre, post, rfl, hpre⟩ := List.find?_eq_some_iff_append.mp h
  simp only [Bool.not_eq_true', decide_eq_false_iff_not] at hpre
  have htype : ({ c with lastTransitionTime := time } : Condition).type = c.type := rfl
  rw [setter.set_existing hpre htype]
  simp [Condition.replace]

/-- A condition of the result is one from before or the new one. -/
theorem mem_set {d : Condition} (h : d ∈ setter.set now cs c) :
    d ∈ cs ∨ d = c.stamp now ∨ ∃ old ∈ cs, d = old.replace now c := by
  rcases setter.set_cases now cs c with ⟨-, hset⟩ | ⟨pre, old, post, rfl, -, -, hset⟩
  · rw [hset, List.mem_append, List.mem_singleton] at h
    exact h.imp_right .inl
  · rw [hset, List.mem_append, List.mem_cons] at h
    rcases h with h | rfl | h
    · exact .inl (by simp [h])
    · exact .inr (.inr ⟨old, by simp, rfl⟩)
    · exact .inl (by simp [h])

/-- Types stay distinct. -/
theorem nodup_set (h : (cs.map Condition.type).Nodup) :
    ((setter.set now cs c).map Condition.type).Nodup := by
  rcases setter.set_cases now cs c with ⟨hne, hset⟩ | ⟨pre, old, post, rfl, -, htype, hset⟩
  · rw [hset, List.map_append, List.nodup_append]
    refine ⟨h, by simp, ?_⟩
    rintro a ha b hb rfl
    obtain ⟨d, hd, rfl⟩ := List.mem_map.mp ha
    rw [List.map_singleton, List.mem_singleton, stamp_type] at hb
    exact hne d hd hb
  · rw [hset]
    simpa [htype] using h

/-- The new condition is there. -/
theorem exists_mem_set (setter : ConditionSetter) (now : Time) (cs : List Condition)
    (c : Condition) : ∃ d ∈ setter.set now cs c, d.type = c.type ∧ d.message = c.message := by
  rcases setter.set_cases now cs c with ⟨-, hset⟩ | ⟨pre, old, post, -, -, -, hset⟩
  · exact ⟨c.stamp now, by simp [hset], rfl, rfl⟩
  · exact ⟨old.replace now c, by simp [hset], by simp, by simp⟩

end ConditionSetter

end InfraDemo.Operator
