import Mathlib.Data.Int.Notation
import Mathlib.Data.List.Nodup
import Mathlib.Tactic.Common

/-!
# Schema — objects written as values, checked against a schema, pruned and read

A structural schema says of an object which fields it may have, and which it must.  A server that checks
values also prunes them: it drops the fields that the schema does not know.  A record is written with
its fields in some order, without those that are left out (`present`).
-/

namespace InfraDemo

/-- A JSON value with whole numbers. -/
inductive Value where
  | null
  | bool (b : Bool)
  | int (n : ℤ)
  | str (s : String)
  | arr (xs : List Value)
  | obj (fields : List (String × Value))

/-- A structural schema: bounds of an integer, what a string must be, the items of a list and the key
that tells them apart, the properties of an object and those it must have. -/
inductive Schema where
  | integer (minimum maximum : Option ℤ)
  | string (accept : String → Bool)
  | array (items : Schema) (mapKey : String)
  | object (properties : List (String × Schema)) (required : List String)

namespace Value

/-- The string in a field of an object. -/
def text? (name : String) : Value → Option String
  | obj fields =>
    match fields.lookup name with
    | some (str s) => some s
    | _ => none
  | _ => none

end Value

namespace Schema

mutual

/-- Is the value one of the schema? -/
def validate : Schema → Value → Bool
  | integer minimum maximum, .int n => minimum.all (· ≤ n) && maximum.all (n ≤ ·)
  | string accept, .str s => accept s
  | array items mapKey, .arr xs =>
    xs.all (fun x => items.validate x) && decide (xs.map (Value.text? mapKey)).Nodup
  | object properties required, .obj fields =>
    required.all (fun name => (fields.lookup name).isSome) && validateFields properties fields
  | _, _ => false

def validateFields : List (String × Schema) → List (String × Value) → Bool
  | [], _ => true
  | (name, schema) :: rest, fields =>
    (fields.lookup name).all (fun v => schema.validate v) && validateFields rest fields

end

mutual

/-- The value without the fields that the schema does not know. -/
def prune : Schema → Value → Value
  | array items _, .arr xs => .arr (xs.map fun x => items.prune x)
  | object properties _, .obj fields =>
    .obj (fields.filterMap fun f => (pruneField properties f.1 f.2).map fun v => (f.1, v))
  | _, v => v

def pruneField : List (String × Schema) → String → Value → Option Value
  | [], _, _ => none
  | (known, schema) :: rest, name, v =>
    if name = known then some (schema.prune v) else pruneField rest name v

end

theorem validateFields_eq (properties : List (String × Schema)) (fields : List (String × Value)) :
    validateFields properties fields =
      properties.all fun p => (fields.lookup p.1).all fun v => p.2.validate v := by
  induction properties with
  | nil => rfl
  | cons p rest ih =>
    obtain ⟨name, schema⟩ := p
    rw [validateFields, ih, List.all_cons]

theorem pruneField_eq (properties : List (String × Schema)) (name : String) (v : Value) :
    pruneField properties name v = (properties.lookup name).map fun schema => schema.prune v := by
  induction properties with
  | nil => rfl
  | cons p rest ih =>
    obtain ⟨known, schema⟩ := p
    rw [pruneField, ih]
    by_cases h : name = known
    · rw [if_pos h, h, List.lookup_cons_self, Option.map_some]
    · rw [if_neg h, List.lookup_cons, beq_eq_false_iff_ne.mpr h]

/-! ### Written fields -/

/-- The fields that are there, in order. -/
def present (entries : List (String × Option Value)) : List (String × Value) :=
  entries.filterMap fun e => e.2.map fun v => (e.1, v)

variable {entries : List (String × Option Value)} {properties : List (String × Schema)}
  {required : List String}

/-- A field is found under its name. -/
theorem lookup_present (h : (entries.map Prod.fst).Nodup) (name : String) :
    (present entries).lookup name = (entries.lookup name).join := by
  induction entries with
  | nil => rfl
  | cons e rest ih =>
    obtain ⟨key, v⟩ := e
    rw [List.map_cons, List.nodup_cons] at h
    have hrest : (present rest).lookup name = (rest.lookup name).join := ih h.2
    by_cases hname : name = key
    · subst hname
      rw [List.lookup_cons_self]
      cases v with
      | some v => exact List.lookup_cons_self
      | none =>
        have hnone : rest.lookup name = none := by
          rw [List.lookup_eq_none_iff]
          intro p hp
          exact bne_iff_ne.mpr fun heq => h.1 (List.mem_map.mpr ⟨p, hp, heq.symm⟩)
        show (present rest).lookup name = none
        rw [hrest, hnone]
        rfl
    · rw [List.lookup_cons, beq_eq_false_iff_ne.mpr hname]
      cases v with
      | none => exact hrest
      | some v =>
        show ((key, v) :: present rest).lookup name = _
        rw [List.lookup_cons, beq_eq_false_iff_ne.mpr hname]
        exact hrest

theorem validate_present (h : (entries.map Prod.fst).Nodup) :
    validate (object properties required) (.obj (present entries)) = true ↔
      (∀ name ∈ required, ((entries.lookup name).join).isSome) ∧
        ∀ p ∈ properties, ((entries.lookup p.1).join).all fun v => p.2.validate v := by
  rw [validate, validateFields_eq, Bool.and_eq_true, List.all_eq_true, List.all_eq_true]
  simp only [lookup_present h]

/-- Nothing is dropped where every field is known. -/
theorem prune_present
    (h : ∀ name v, (name, some v) ∈ entries → ∃ schema, properties.lookup name = some schema ∧
      schema.prune v = v) :
    prune (object properties required) (.obj (present entries)) = .obj (present entries) := by
  have hkept : ∀ f ∈ present entries, (pruneField properties f.1 f.2).map (fun v => (f.1, v)) =
      some f := by
    intro f hf
    obtain ⟨⟨name, v⟩, he, hv⟩ := List.mem_filterMap.mp hf
    obtain ⟨v, rfl, rfl⟩ := Option.map_eq_some_iff.mp hv
    obtain ⟨schema, hschema, hprune⟩ := h name v he
    rw [pruneField_eq, hschema, Option.map_some, Option.map_some, hprune]
  rw [prune]
  congr 1
  conv_rhs => rw [← List.filterMap_some (l := present entries)]
  exact List.filterMap_congr hkept

end Schema

end InfraDemo
