import Mathlib.Logic.Function.Basic
import Mathlib.Data.List.Basic

/-!
# Registers — logs of which the last write wins

A log is a list of writes, each of a value or of an error to some register.  `replay` takes a store
through a log and stops at the first error.  Without an error every register has the value of its last
write (`replay_ok`), so a log matters only through the writes to each register, in their order
(`outcome_congr`), and the second of two logs hides the first where it writes (`last_append`).
-/

namespace InfraDemo.Registers

variable {κ ν ε : Type} [DecidableEq κ]

/-- One write. -/
def write (s : κ → ν) (w : κ × Except ε ν) : Except ε (κ → ν) :=
  w.2.map fun v => Function.update s w.1 v

def replay (s : κ → ν) (log : List (κ × Except ε ν)) : Except ε (κ → ν) := log.foldlM write s

/-- What is written to `k`, in order. -/
def slot (k : κ) (log : List (κ × Except ε ν)) : List (Except ε ν) :=
  (log.filter fun w => w.1 = k).map Prod.snd

/-- No write is an error. -/
def Valid (log : List (κ × Except ε ν)) : Prop := ∀ w ∈ log, ∃ v, w.2 = .ok v

/-- The last value written to `k`, or the one it has. -/
def last (s : κ → ν) (log : List (κ × Except ε ν)) (k : κ) : ν :=
  match (slot k log).getLast? with
  | some (.ok v) => v
  | _ => s k

variable {s : κ → ν} {k : κ} {log log' : List (κ × Except ε ν)}

@[simp] theorem slot_append : slot k (log ++ log') = slot k log ++ slot k log' := by
  simp only [slot, List.filter_append, List.map_append]

theorem slot_cons_self {x : Except ε ν} : slot k ((k, x) :: log) = x :: slot k log := by
  rw [slot, List.filter_cons_of_pos (by simp), List.map_cons, slot]

theorem slot_cons_of_ne {j : κ} (h : j ≠ k) {x : Except ε ν} :
    slot k ((j, x) :: log) = slot k log := by
  rw [slot, List.filter_cons_of_neg (by simpa using h), slot]

theorem mem_slot {x : Except ε ν} : x ∈ slot k log ↔ (k, x) ∈ log := by
  constructor
  · intro h
    obtain ⟨⟨j, y⟩, hmem, rfl⟩ := List.mem_map.mp h
    obtain ⟨hlog, hj⟩ := List.mem_filter.mp hmem
    obtain rfl : j = k := of_decide_eq_true hj
    exact hlog
  · intro h
    exact List.mem_map.mpr ⟨(k, x), List.mem_filter.mpr ⟨h, by simp⟩, rfl⟩

theorem valid_iff_slots : Valid log ↔ ∀ k, ∀ x ∈ slot k log, ∃ v, x = .ok v := by
  constructor
  · intro h k x hx
    exact h (k, x) (mem_slot.mp hx)
  · rintro h ⟨k, x⟩ hw
    exact h k x (mem_slot.mpr hw)

/-- The first write of a log goes into the store that the rest starts from. -/
theorem last_cons {j : κ} {v : ν} (hv : Valid log) :
    last s ((j, .ok v) :: log) k = last (Function.update s j v) log k := by
  by_cases hj : j = k
  · subst hj
    unfold last
    rw [slot_cons_self, List.getLast?_cons]
    cases hlast : (slot j log).getLast? with
    | none =>
      show v = Function.update s j v j
      rw [Function.update_self]
    | some x =>
      obtain ⟨v', rfl⟩ := valid_iff_slots.mp hv j x (List.mem_of_getLast? hlast)
      rfl
  · unfold last
    rw [slot_cons_of_ne hj, Function.update_of_ne (Ne.symm hj)]

/-- **Last write wins.** -/
theorem replay_ok (h : Valid log) : replay s log = .ok (last s log) := by
  induction log generalizing s with
  | nil => rfl
  | cons w log ih =>
    obtain ⟨j, x⟩ := w
    obtain ⟨v, rfl⟩ : ∃ v, x = .ok v := h (j, x) List.mem_cons_self
    have htail : Valid log := fun w hw => h w (List.mem_cons_of_mem _ hw)
    have hstep : replay s ((j, .ok v) :: log) = replay (Function.update s j v) log := rfl
    rw [hstep, ih htail]
    exact congrArg Except.ok (funext fun k => (last_cons htail).symm)

theorem replay_error (h : ¬ Valid log) : ∃ e, replay s log = .error e := by
  induction log generalizing s with
  | nil => exact absurd (fun w hw => absurd hw List.not_mem_nil) h
  | cons w log ih =>
    obtain ⟨j, x⟩ := w
    cases x with
    | error e => exact ⟨e, rfl⟩
    | ok v =>
      have htail : ¬ Valid log := by
        intro hlog
        refine h fun w hw => ?_
        rcases List.mem_cons.mp hw with rfl | hw
        · exact ⟨v, rfl⟩
        · exact hlog w hw
      exact ih htail

theorem last_congr (h : slot k log = slot k log') : last s log k = last s log' k := by
  unfold last
  rw [h]

/-- **Only the writes to each register matter.** -/
theorem outcome_congr (h : ∀ k, slot k log = slot k log') :
    (replay s log).toOption = (replay s log').toOption := by
  by_cases hv : Valid log
  · have hv' : Valid log' := by
      rw [valid_iff_slots] at hv ⊢
      simpa only [h] using hv
    rw [replay_ok hv, replay_ok hv']
    exact congrArg some (funext fun k => last_congr (h k))
  · have hv' : ¬ Valid log' := by
      rw [valid_iff_slots] at hv ⊢
      simpa only [h] using hv
    obtain ⟨e, he⟩ := replay_error (s := s) hv
    obtain ⟨e', he'⟩ := replay_error (s := s) hv'
    rw [he, he']
    rfl

/-- The second log hides the first where it writes. -/
theorem last_append (hv : Valid log') :
    last s (log ++ log') k = if slot k log' = [] then last s log k else last s log' k := by
  split_ifs with hnil
  · exact last_congr (by rw [slot_append, hnil, List.append_nil])
  · obtain ⟨xs, x, hx⟩ := (List.eq_nil_or_concat' (slot k log')).resolve_left hnil
    obtain ⟨v, rfl⟩ := valid_iff_slots.mp hv k x (by rw [hx]; simp)
    unfold last
    rw [slot_append, hx, ← List.append_assoc, List.getLast?_concat, List.getLast?_concat]

end InfraDemo.Registers
