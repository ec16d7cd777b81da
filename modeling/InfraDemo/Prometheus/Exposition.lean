import InfraDemo.Go.Strconv

/-!
# Exposition — the Prometheus text exposition format

The format as data: an `Exposition` is a list of lines, each blank, a comment (HELP and TYPE lines
among them) or a sample with its name, label set, value and timestamp, and with the blanks that may
stand between its tokens.  `Exposition.text` is the text.

A program that takes lines apart at white space sees two fields in a sample in two cases only: it has
neither a label set nor a timestamp (`Sample.Bare`), or a blank stands before its label set and no
white space after that (`Sample.Joined`).
-/

namespace InfraDemo.Prometheus

open InfraDemo.Go

/-! ### Tokens -/

/-- Blanks and tabs. -/
structure Gap where
  chars : List Char
  blank : ∀ c ∈ chars, c = ' ' ∨ c = '\t'

/-- At least one of them. -/
structure Blank extends Gap where
  ne_nil : chars ≠ []

def isNameStart (c : Char) : Bool := c.isAlpha || c == '_' || c == ':'

def isNameChar (c : Char) : Bool := isNameStart c || c.isDigit

/-- `[a-zA-Z_:][a-zA-Z0-9_:]*`; label names are those without a colon. -/
structure Name where
  chars : List Char
  start : chars.head?.any isNameStart
  valid : ∀ c ∈ chars, isNameChar c

/-- A number as `ParseFloat` takes it. -/
structure Number where
  chars : List Char
  ne_nil : chars ≠ []
  solid : ∀ c ∈ chars, isSpaceChar c = false
  valid : (special? chars).isSome ∨ (literalValue? chars).isSome

/-- A 64-bit integer as `ParseInt` takes it. -/
structure Timestamp where
  chars : List Char
  valid : (atoi (runes chars)).isOk

/-! ### Samples -/

/-- How a label value is written. -/
def escapeChar (c : Char) : List Char :=
  if c = backslash ∨ c = doubleQuote then [backslash, c]
  else if c = '\n' then [backslash, 'n']
  else [c]

def escape (cs : List Char) : List Char := cs.flatMap escapeChar

structure Label where
  before : Gap
  name : Name
  noColon : ':' ∉ name.chars
  beforeEq : Gap
  afterEq : Gap
  value : List Char
  after : Gap

def Label.chars (l : Label) : List Char :=
  l.before.chars ++ l.name.chars ++ l.beforeEq.chars ++ ['='] ++ l.afterEq.chars ++
    [doubleQuote] ++ escape l.value ++ [doubleQuote] ++ l.after.chars

/-- The labels that a comma follows, and one that none follows. -/
structure LabelSet where
  labels : List Label
  last : Option Label
  inner : Gap

/-- What stands between the braces. -/
def LabelSet.chars (L : LabelSet) : List Char :=
  L.labels.flatMap (fun l => l.chars ++ [',']) ++ L.last.toList.flatMap Label.chars ++ L.inner.chars

/-- What stands between the name and the value: a blank, or a label set. -/
inductive Labelling where
  | bare (gap : Blank)
  | labelled (before : Gap) (labels : LabelSet) (after : Gap)

def Labelling.chars : Labelling → List Char
  | .bare gap => gap.chars
  | .labelled before labels after => before.chars ++ ['{'] ++ labels.chars ++ ['}'] ++ after.chars

structure Sample where
  lead : Gap
  name : Name
  labelling : Labelling
  value : Number
  timestamp : Option (Blank × Timestamp)
  trail : Gap

def stampChars : Option (Blank × Timestamp) → List Char
  | none => []
  | some (gap, t) => gap.chars ++ t.chars

def Sample.chars (s : Sample) : List Char :=
  s.lead.chars ++ s.name.chars ++ s.labelling.chars ++ s.value.chars ++ stampChars s.timestamp ++
    s.trail.chars

/-! ### Expositions -/

/-- A line: blank, a comment, or a sample. -/
inductive Entry where
  | blank (gap : Gap)
  | comment (lead : Gap) (rest : List Char) (oneLine : '\n' ∉ rest)
  | sample (s : Sample)

def Entry.chars : Entry → List Char
  | .blank gap => gap.chars
  | .comment lead rest _ => lead.chars ++ ['#'] ++ rest
  | .sample s => s.chars

def Entry.text (x : Entry) : Text := runes x.chars

def Entry.sample? : Entry → Option Sample
  | .sample s => some s
  | _ => none

/-- The lines; the line feed that ends the last one makes a blank line after it. -/
abbrev Exposition := List Entry

def Exposition.text (e : Exposition) : Text := [Rune.char '\n'].intercalate (e.map Entry.text)

def Exposition.samples (e : Exposition) : List Sample := e.filterMap Entry.sample?

/-! ### Lines -/

section Lines

variable {cs : List Char}

theorem isNameChar_toNat {c : Char} (h : isNameChar c) : 33 ≤ c.toNat ∧ c.toNat ≤ 126 := by
  unfold isNameChar isNameStart Char.isAlpha Char.isUpper Char.isLower Char.isDigit at h
  simp only [Bool.or_eq_true, Bool.and_eq_true, decide_eq_true_eq, beq_iff_eq, ge_iff_le,
    UInt32.le_iff_toNat_le] at h
  rcases h with (((h | h) | rfl) | rfl) | h
  · obtain ⟨h1, h2⟩ := h
    exact ⟨(by decide : 33 ≤ 65).trans h1, h2.trans (by decide)⟩
  · obtain ⟨h1, h2⟩ := h
    exact ⟨(by decide : 33 ≤ 97).trans h1, h2.trans (by decide)⟩
  · decide
  · decide
  · obtain ⟨h1, h2⟩ := h
    exact ⟨(by decide : 33 ≤ 48).trans h1, h2.trans (by decide)⟩

theorem Name.solid (n : Name) : ∀ c ∈ n.chars, isSpaceChar c = false := by
  intro c hc
  obtain ⟨h1, h2⟩ := isNameChar_toNat (n.valid c hc)
  exact isSpaceChar_of_printable h1 h2

theorem Name.ne_nil (n : Name) : n.chars ≠ [] := by
  intro h
  have hstart := n.start
  rw [h] at hstart
  cases hstart

theorem Timestamp.isDecimal (t : Timestamp) : IsDecimal t.chars := by
  have hvalid := t.valid
  by_contra h
  obtain ⟨e, he⟩ := atoi_of_not_isDecimal h
  rw [he] at hvalid
  cases hvalid

theorem Timestamp.solid (t : Timestamp) : ∀ c ∈ t.chars, isSpaceChar c = false := by
  intro c hc
  rcases t.isDecimal.mem hc with hd | rfl | rfl
  · have hname : isNameChar c := by
      rw [isNameChar, hd, Bool.or_true]
    obtain ⟨h1, h2⟩ := isNameChar_toNat hname
    exact isSpaceChar_of_printable h1 h2
  · decide
  · decide

theorem Timestamp.ne_nil (t : Timestamp) : t.chars ≠ [] := by
  intro h
  have hdec := t.isDecimal
  rw [h] at hdec
  exact hdec.1 rfl

theorem Gap.isSpace (g : Gap) : ∀ r ∈ runes g.chars, r.isSpace := by
  intro r hr
  obtain ⟨c, hc, rfl⟩ := List.mem_map.mp hr
  rcases g.blank c hc with rfl | rfl <;> decide

theorem solid_runes (h : ∀ c ∈ cs, isSpaceChar c = false) : ∀ r ∈ runes cs, r.isSpace = false := by
  intro r hr
  obtain ⟨c, hc, rfl⟩ := List.mem_map.mp hr
  exact h c hc

theorem newline_notMem_of_solid (h : ∀ c ∈ cs, isSpaceChar c = false) : '\n' ∉ cs :=
  fun hmem => absurd (h _ hmem) (by decide)

theorem Gap.newline_notMem (g : Gap) : '\n' ∉ g.chars := by
  intro h
  rcases g.blank _ h with hb | hb <;> exact absurd hb (by decide)

theorem newline_notMem_escape (cs : List Char) : '\n' ∉ escape cs := by
  intro h
  obtain ⟨c, -, hc⟩ := List.mem_flatMap.mp h
  unfold escapeChar at hc
  split_ifs at hc with h1 h2
  · rcases h1 with rfl | rfl <;> exact absurd hc (by decide)
  · exact absurd hc (by decide)
  · exact h2 (List.mem_singleton.mp hc).symm

theorem Label.newline_notMem (l : Label) : '\n' ∉ l.chars := by
  simp only [Label.chars, List.mem_append, not_or]
  exact ⟨⟨⟨⟨⟨⟨⟨⟨l.before.newline_notMem, newline_notMem_of_solid l.name.solid⟩,
    l.beforeEq.newline_notMem⟩, by decide⟩, l.afterEq.newline_notMem⟩, by decide⟩,
    newline_notMem_escape _⟩, by decide⟩, l.after.newline_notMem⟩

theorem LabelSet.newline_notMem (L : LabelSet) : '\n' ∉ L.chars := by
  simp only [LabelSet.chars, List.mem_append, List.mem_flatMap, not_or, not_exists, not_and]
  refine ⟨⟨fun l _ => ⟨l.newline_notMem, by decide⟩, fun l _ => l.newline_notMem⟩,
    L.inner.newline_notMem⟩

theorem Labelling.newline_notMem (x : Labelling) : '\n' ∉ x.chars := by
  cases x with
  | bare gap => exact gap.newline_notMem
  | labelled before labels after =>
    simp only [Labelling.chars, List.mem_append, not_or]
    exact ⟨⟨⟨⟨before.newline_notMem, by decide⟩, labels.newline_notMem⟩, by decide⟩,
      after.newline_notMem⟩

theorem newline_notMem_stampChars (x : Option (Blank × Timestamp)) : '\n' ∉ stampChars x := by
  cases x with
  | none => exact List.not_mem_nil
  | some p =>
    simp only [stampChars, List.mem_append, not_or]
    exact ⟨p.1.newline_notMem, newline_notMem_of_solid p.2.solid⟩

/-- A line has no line feed in it. -/
theorem Entry.newline_notMem (x : Entry) : '\n' ∉ x.chars := by
  cases x with
  | blank gap => exact gap.newline_notMem
  | comment lead rest oneLine =>
    simp only [Entry.chars, List.mem_append, not_or]
    exact ⟨⟨lead.newline_notMem, by decide⟩, oneLine⟩
  | sample s =>
    simp only [Entry.chars, Sample.chars, List.mem_append, not_or]
    exact ⟨⟨⟨⟨⟨s.lead.newline_notMem, newline_notMem_of_solid s.name.solid⟩,
      s.labelling.newline_notMem⟩, newline_notMem_of_solid s.value.solid⟩,
      newline_notMem_stampChars _⟩, s.trail.newline_notMem⟩

/-- **The lines of an exposition** are its entries. -/
theorem lines_text {e : Exposition} (he : e ≠ []) : lines e.text = e.map Entry.text := by
  refine List.splitOn_intercalate _ ?_ (by simpa using he)
  intro l hl hmem
  obtain ⟨x, -, rfl⟩ := List.mem_map.mp hl
  obtain ⟨c, hc, heq⟩ := List.mem_map.mp hmem
  cases heq
  exact x.newline_notMem hc

end Lines

/-! ### Fields -/

def Sample.text (s : Sample) : Text := runes s.chars

/-- The sample without the blanks around it. -/
def Sample.core (s : Sample) : List Char :=
  s.name.chars ++ s.labelling.chars ++ s.value.chars ++ stampChars s.timestamp

/-- Neither a label set nor a timestamp. -/
def Sample.Bare (s : Sample) : Prop := (∃ gap, s.labelling = .bare gap) ∧ s.timestamp = none

/-- A blank before the label set, no white space after that. -/
def Sample.Joined (s : Sample) : Prop :=
  (∃ before labels after, s.labelling = .labelled before labels after ∧ before.chars ≠ [] ∧
    after.chars = [] ∧ ∀ c ∈ labels.chars, isSpaceChar c = false) ∧ s.timestamp = none

/-- Neither. -/
def Sample.Scattered (s : Sample) : Prop := ¬ s.Bare ∧ ¬ s.Joined

section Fields

variable {s : Sample}

theorem Sample.Bare.not_joined (h : s.Bare) : ¬ s.Joined := by
  rintro ⟨⟨before, labels, after, hlab, -⟩, -⟩
  obtain ⟨⟨gap, hgap⟩, -⟩ := h
  rw [hgap] at hlab
  cases hlab

theorem fields_token {cs : List Char} (hne : cs ≠ []) (h : ∀ c ∈ cs, isSpaceChar c = false) :
    fields (runes cs) = [runes cs] :=
  fields_solid (by simpa using hne) (solid_runes h)

theorem fields_brace (cs : List Char) : fields (runes ('{' :: cs)) ≠ [] :=
  fields_ne_nil List.mem_cons_self rfl

theorem fields_core (s : Sample) : fields s.text = fields (runes s.core) := by
  have htext : s.text = runes s.lead.chars ++ (runes s.core ++ runes s.trail.chars) := by
    simp only [Sample.text, Sample.chars, Sample.core, runes, List.map_append, List.append_assoc]
  rw [htext, fields_spaces_append s.lead.isSpace, fields_append_spaces _ s.trail.isSpace]

/-- The fields of a sample without a label set. -/
theorem fields_unlabelled {gap : Blank} (h : s.labelling = .bare gap) : fields s.text =
    runes s.name.chars :: runes s.value.chars ::
      s.timestamp.toList.map fun p => runes p.2.chars := by
  have hcore : runes s.core = runes s.name.chars ++ (runes gap.chars ++
      (runes s.value.chars ++ runes (stampChars s.timestamp))) := by
    simp only [Sample.core, h, Labelling.chars, runes, List.map_append, List.append_assoc]
  rw [fields_core, hcore, fields_gap _ _ (by simpa using gap.ne_nil) gap.isSpace,
    fields_token s.name.ne_nil s.name.solid, List.singleton_append]
  cases hstamp : s.timestamp with
  | none =>
    have hnil : runes (stampChars none) = [] := rfl
    rw [hnil, List.append_nil, fields_token s.value.ne_nil s.value.solid]
    rfl
  | some p =>
    have hp : runes (stampChars (some p)) = runes p.1.chars ++ runes p.2.chars := by
      simp only [stampChars, runes, List.map_append]
    rw [hp, fields_gap _ _ (by simpa using p.1.ne_nil) p.1.isSpace,
      fields_token s.value.ne_nil s.value.solid, fields_token p.2.ne_nil p.2.solid]
    rfl

/-- The fields of a sample with a blank before its label set. -/
theorem fields_apart {before after : Gap} {labels : LabelSet}
    (h : s.labelling = .labelled before labels after) (hne : before.chars ≠ []) :
    fields s.text = runes s.name.chars :: fields (runes ('{' ::
      (labels.chars ++ '}' :: (after.chars ++ (s.value.chars ++ stampChars s.timestamp))))) := by
  have hcore : runes s.core = runes s.name.chars ++ (runes before.chars ++ runes ('{' ::
      (labels.chars ++ '}' :: (after.chars ++ (s.value.chars ++ stampChars s.timestamp))))) := by
    simp only [Sample.core, h, Labelling.chars, runes, List.map_append, List.append_assoc,
      List.map_cons, List.cons_append, List.nil_append]
  rw [fields_core, hcore, fields_gap _ _ (by simpa using hne) before.isSpace,
    fields_token s.name.ne_nil s.name.solid, List.singleton_append]

theorem fields_bare (h : s.Bare) :
    fields s.text = [runes s.name.chars, runes s.value.chars] := by
  obtain ⟨⟨gap, hgap⟩, hstamp⟩ := h
  rw [fields_unlabelled hgap, hstamp]
  rfl

theorem fields_joined (h : s.Joined) :
    ∃ cs, fields s.text = [runes s.name.chars, runes ('{' :: cs)] := by
  obtain ⟨⟨before, labels, after, hlab, hbefore, hafter, hsolid⟩, hstamp⟩ := h
  refine ⟨labels.chars ++ '}' :: s.value.chars, ?_⟩
  have hrest : ∀ c ∈ '{' :: (labels.chars ++ '}' :: s.value.chars), isSpaceChar c = false := by
    simp only [List.mem_cons, List.mem_append]
    rintro c (rfl | hc | rfl | hc)
    · decide
    · exact hsolid c hc
    · decide
    · exact s.value.solid c hc
  rw [fields_apart hlab hbefore, hafter, hstamp, stampChars, List.nil_append, List.append_nil,
    fields_token (List.cons_ne_nil _ _) hrest]

/-- A label set right after the name: its brace is in the first field. -/
theorem brace_mem_of_attached {before after : Gap} {labels : LabelSet} {f : Text} {fs : List Text}
    (h : s.labelling = .labelled before labels after) (hnil : before.chars = [])
    (hf : fields s.text = f :: fs) : Rune.char '{' ∈ f := by
  have hcore : runes s.core = runes (s.name.chars ++ ['{']) ++
      runes (labels.chars ++ '}' :: (after.chars ++ (s.value.chars ++ stampChars s.timestamp))) := by
    simp only [Sample.core, h, hnil, Labelling.chars, runes, List.map_append, List.append_assoc,
      List.map_cons, List.map_nil, List.cons_append, List.nil_append]
  have hsolid : ∀ c ∈ s.name.chars ++ ['{'], isSpaceChar c = false := by
    simp only [List.mem_append, List.mem_singleton]
    rintro c (hc | rfl)
    · exact s.name.solid c hc
    · decide
  obtain ⟨w, fs', hw⟩ := fields_solid_append (a := runes (s.name.chars ++ ['{'])) (b := runes
    (labels.chars ++ '}' :: (after.chars ++ (s.value.chars ++ stampChars s.timestamp))))
    (by simp) (solid_runes hsolid)
  rw [fields_core, hcore, hw] at hf
  rw [← (List.cons.inj hf).1]
  simp

/-- White space between two texts with fields. -/
theorem two_le_fields {x g y : Text} (hne : g ≠ []) (hg : ∀ r ∈ g, r.isSpace) (hx : fields x ≠ [])
    (hy : fields y ≠ []) : 2 ≤ (fields (x ++ (g ++ y))).length := by
  have h1 := List.length_pos_of_ne_nil hx
  have h2 := List.length_pos_of_ne_nil hy
  rw [fields_gap x y hne hg, List.length_append]
  omega

theorem fields_token_ne_nil {cs : List Char} (hne : cs ≠ []) (h : ∀ c ∈ cs, isSpaceChar c = false) :
    fields (runes cs) ≠ [] := by
  rw [fields_token hne h]
  exact List.cons_ne_nil _ _

/-- White space after a label set that stands apart makes a third field. -/
theorem two_le_of_not_joined {before after : Gap} {labels : LabelSet}
    (h : s.labelling = .labelled before labels after) (hne : before.chars ≠ []) (hj : ¬ s.Joined) :
    2 ≤ (fields (runes ('{' :: (labels.chars ++ '}' ::
      (after.chars ++ (s.value.chars ++ stampChars s.timestamp)))))).length := by
  cases hstamp : s.timestamp with
  | some p =>
    have hsplit : runes ('{' :: (labels.chars ++ '}' ::
        (after.chars ++ (s.value.chars ++ stampChars (some p))))) =
          runes ('{' :: (labels.chars ++ '}' :: (after.chars ++ s.value.chars))) ++
            (runes p.1.chars ++ runes p.2.chars) := by
      simp only [stampChars, runes, List.map_append, List.map_cons, List.append_assoc,
        List.cons_append]
    rw [hsplit]
    exact two_le_fields (by simpa using p.1.ne_nil) p.1.isSpace (fields_brace _)
      (fields_token_ne_nil p.2.ne_nil p.2.solid)
  | none =>
    by_cases hafter : after.chars = []
    · have hspace : ∃ c ∈ labels.chars, isSpaceChar c = true := by
        by_contra hno
        refine hj ⟨⟨before, labels, after, h, hne, hafter, fun c hc => ?_⟩, hstamp⟩
        exact Bool.eq_false_iff.mpr fun hc' => hno ⟨c, hc, hc'⟩
      obtain ⟨c, hc, hspace⟩ := hspace
      obtain ⟨p, q, hpq⟩ := List.append_of_mem hc
      have hsplit : runes ('{' :: (labels.chars ++ '}' ::
          (after.chars ++ (s.value.chars ++ stampChars none)))) =
            runes ('{' :: p) ++ ([Rune.char c] ++ runes (q ++ '}' :: s.value.chars)) := by
        simp only [hpq, hafter, stampChars, runes, List.map_append, List.map_cons,
          List.append_assoc, List.cons_append, List.nil_append, List.append_nil]
      rw [hsplit]
      refine two_le_fields (List.cons_ne_nil _ _) ?_ (fields_brace p)
        (fields_ne_nil (r := .char '}') (by simp) rfl)
      intro r hr
      rw [List.mem_singleton.mp hr]
      exact hspace
    · have hsplit : runes ('{' :: (labels.chars ++ '}' ::
          (after.chars ++ (s.value.chars ++ stampChars none)))) =
            runes ('{' :: (labels.chars ++ ['}'])) ++ (runes after.chars ++ runes s.value.chars) := by
        simp only [stampChars, runes, List.map_append, List.map_cons, List.map_nil,
          List.append_assoc, List.cons_append, List.nil_append, List.append_nil]
      rw [hsplit]
      exact two_le_fields (by simpa using hafter) after.isSpace (fields_brace _)
        (fields_token_ne_nil s.value.ne_nil s.value.solid)

/-- **Any other sample** is not two fields, the first without a brace. -/
theorem fields_scattered (h : s.Scattered) {f v : Text} (hf : Rune.char '{' ∉ f) :
    fields s.text ≠ [f, v] := by
  obtain ⟨hb, hj⟩ := h
  intro heq
  cases hlab : s.labelling with
  | bare gap =>
    cases hstamp : s.timestamp with
    | none => exact hb ⟨⟨gap, hlab⟩, hstamp⟩
    | some p =>
      rw [fields_unlabelled hlab, hstamp] at heq
      cases heq
  | labelled before labels after =>
    by_cases hne : before.chars = []
    · exact hf (brace_mem_of_attached hlab hne heq)
    · have hlen := two_le_of_not_joined hlab hne hj
      rw [fields_apart hlab hne] at heq
      rw [(List.cons.inj heq).2] at hlen
      simp at hlen

/-- A blank line has no field. -/
theorem fields_blank (g : Gap) : fields (Entry.blank g).text = [] := fields_spaces g.isSpace

/-- The first field of a comment starts with a number sign. -/
theorem fields_comment (lead : Gap) (rest : List Char) (oneLine : '\n' ∉ rest) :
    ∃ w fs, fields (Entry.comment lead rest oneLine).text = (Rune.char '#' :: w) :: fs := by
  have htext : (Entry.comment lead rest oneLine).text =
      runes lead.chars ++ ([Rune.char '#'] ++ runes rest) := by
    simp only [Entry.text, Entry.chars, runes, List.map_append, List.append_assoc, List.map_cons,
      List.map_nil]
  obtain ⟨w, fs, h⟩ := fields_solid_append (a := [Rune.char '#']) (b := runes rest) (by simp)
    (by simp; decide)
  exact ⟨w, fs, by rw [htext, fields_spaces_append lead.isSpace, h, List.singleton_append]⟩

end Fields

end InfraDemo.Prometheus
