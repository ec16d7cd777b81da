import Mathlib.Data.List.Forall2
import InfraDemo.Go.Text

/-!
# Layout — changes of a text that leave its fields

Texts as lists of lines (`unlines`), lines as fields with white space around them (`Spaced`), and line
ends of two characters (`crlf`).
-/

namespace InfraDemo.Go

/-! ### Lines -/

def newline : Rune := .char '\n'

/-- The lines with a line feed between each two. -/
def unlines (ls : List Text) : Text := [newline].intercalate ls

theorem lines_unlines {ls : List Text} (hne : ls ≠ []) (h : ∀ l ∈ ls, newline ∉ l) :
    lines (unlines ls) = ls :=
  List.splitOn_intercalate newline h hne

theorem lines_append (a b : Text) : lines (a ++ newline :: b) = lines a ++ lines b :=
  List.splitOn_append_cons_self a b

/-! ### White space -/

/-- The line consists of the fields, with white space around them and between each two. -/
inductive Spaced : List Text → Text → Prop where
  | nil {g : Text} (space : ∀ r ∈ g, r.isSpace) : Spaced [] g
  | cons {g f line : Text} {fs : List Text} (space : ∀ r ∈ g, r.isSpace) (ne_nil : f ≠ [])
      (solid : ∀ r ∈ f, r.isSpace = false) (apart : ∀ r, line.head? = some r → r.isSpace)
      (rest : Spaced fs line) : Spaced (f :: fs) (g ++ (f ++ line))

theorem Spaced.fields {fs : List Text} {line : Text} (h : Spaced fs line) : fields line = fs := by
  induction h with
  | nil space => exact fields_spaces space
  | @cons g f line fs space ne_nil solid apart rest ih =>
    rw [fields_spaces_append space]
    cases line with
    | nil =>
      rw [List.append_nil, fields_solid ne_nil solid, ← ih]
      rfl
    | cons r line =>
      have hr : r.isSpace := apart r rfl
      have hrest := fields_append_cons [] line hr
      rw [fields_append_cons f line hr, fields_solid ne_nil solid, ← ih]
      exact congrArg (f :: ·) hrest.symm

theorem Spaced.space_cons {fs : List Text} {line : Text} {r : Rune} (hr : r.isSpace)
    (h : Spaced fs line) : Spaced fs (r :: line) := by
  cases h with
  | nil space => exact .nil (List.forall_mem_cons.mpr ⟨hr, space⟩)
  | cons space ne_nil solid apart rest =>
    exact .cons (List.forall_mem_cons.mpr ⟨hr, space⟩) ne_nil solid apart rest

/-- A solid rune before a line starts its first field, or goes into it. -/
theorem Spaced.solid_cons {fs : List Text} {line : Text} {r : Rune} (hr : r.isSpace = false)
    (h : Spaced fs line) : ∃ fs', Spaced fs' (r :: line) := by
  have hsolid : ∀ x ∈ [r], Rune.isSpace x = false := by simpa using hr
  have hnew : (∀ x, line.head? = some x → x.isSpace) → ∃ fs', Spaced fs' (r :: line) := fun hapart =>
    ⟨_, .cons (g := []) (f := [r]) (by simp) (by simp) hsolid hapart h⟩
  cases h with
  | nil space =>
    refine hnew fun x hx => ?_
    exact space x (List.mem_of_head? hx)
  | @cons g f line fs space ne_nil solid apart rest =>
    cases g with
    | cons x g =>
      refine hnew fun y hy => ?_
      cases hy
      exact space x List.mem_cons_self
    | nil =>
      refine ⟨_, .cons (g := []) (f := r :: f) (by simp) (by simp) ?_ apart rest⟩
      exact List.forall_mem_cons.mpr ⟨hr, solid⟩

/-- Every line is laid out so. -/
theorem spaced_fields (line : Text) : Spaced (Go.fields line) line := by
  obtain ⟨fs, h⟩ : ∃ fs, Spaced fs line := by
    induction line with
    | nil => exact ⟨[], .nil (by simp)⟩
    | cons r line ih =>
      obtain ⟨fs, h⟩ := ih
      cases hr : r.isSpace with
      | true => exact ⟨fs, h.space_cons hr⟩
      | false => exact h.solid_cons hr
  rwa [h.fields]

/-- Two lines with the same fields, and nothing else but white space. -/
def Respaced (l l' : Text) : Prop := ∃ fs, Spaced fs l ∧ Spaced fs l'

theorem respaced_iff {l l' : Text} : Respaced l l' ↔ fields l = fields l' := by
  constructor
  · rintro ⟨fs, h, h'⟩
    rw [h.fields, h'.fields]
  · intro h
    exact ⟨_, spaced_fields l, h ▸ spaced_fields l'⟩

/-! ### Line ends -/

def carriageReturn : Rune := .char '\r'

/-- LF changed to CRLF. -/
def crlf (text : Text) : Text :=
  text.flatMap fun r => if r = newline then [carriageReturn, newline] else [r]

theorem lines_newline_cons (t : Text) : lines (newline :: t) = [] :: lines t := by
  rw [lines, List.splitOn_cons_eq_if_modifyHead]
  rfl

theorem lines_cons_of_ne {r : Rune} (h : r ≠ newline) (t : Text) :
    lines (r :: t) = (lines t).modifyHead (r :: ·) := by
  have hb : (r == Rune.char '\n') = false := beq_eq_false_iff_ne.mpr h
  rw [lines, List.splitOn_cons_eq_if_modifyHead, hb]
  rfl

theorem forall₂_modifyHead {α : Type} {R : α → α → Prop} {f : α → α} {l l' : List α}
    (hf : ∀ x y, R x y → R (f x) (f y)) (h : List.Forall₂ R l l') :
    List.Forall₂ R (l.modifyHead f) (l'.modifyHead f) := by
  cases h with
  | nil => exact .nil
  | cons hx hl => exact .cons (hf _ _ hx) hl

/-- The lines are the same, but for white space at their ends. -/
theorem lines_crlf (t : Text) :
    List.Forall₂ (fun l l' => ∃ g, l' = l ++ g ∧ ∀ r ∈ g, Rune.isSpace r) (lines t)
      (lines (crlf t)) := by
  induction t with
  | nil => exact .cons ⟨[], rfl, by simp⟩ .nil
  | cons r t ih =>
    by_cases hr : r = newline
    · subst hr
      have hcr : carriageReturn ≠ newline := by decide
      have hcrlf : crlf (newline :: t) = carriageReturn :: newline :: crlf t := rfl
      rw [hcrlf, lines_cons_of_ne hcr, lines_newline_cons, lines_newline_cons]
      exact .cons ⟨[carriageReturn], rfl, by simp; decide⟩ ih
    · have hcrlf : crlf (r :: t) = r :: crlf t := by
        rw [crlf, List.flatMap_cons, if_neg hr]
        rfl
      rw [hcrlf, lines_cons_of_ne hr, lines_cons_of_ne hr]
      refine forall₂_modifyHead ?_ ih
      rintro l _ ⟨g, rfl, hg⟩
      exact ⟨g, rfl, hg⟩

theorem respaced_crlf (t : Text) : List.Forall₂ Respaced (lines t) (lines (crlf t)) := by
  refine (lines_crlf t).imp ?_
  rintro l _ ⟨g, rfl, hg⟩
  exact respaced_iff.mpr (fields_append_spaces l hg).symm

end InfraDemo.Go
