import Mathlib.Data.Int.Notation
import Mathlib.Data.List.Basic
import Mathlib.Tactic.Common

/-!
# Text — Go strings as rune sequences

A Go string is a byte sequence.  Decoded it is a sequence of code points and of bytes that are no
part of a UTF-8 encoding; the latter are all at least `0x80`.  `Text` keeps that sequence, so two
byte strings have the same `Text` only if they are equal.  On it: `strings.Split` at a newline,
`strings.Fields` and `strconv.Quote`.
-/

namespace InfraDemo.Go

/-- One decoding step of a Go string: a code point, or the stray byte `0x80 + b`. -/
inductive Rune where
  | char (c : Char)
  | stray (b : Fin 128)
  deriving DecidableEq, Repr

/-- A Go string, decoded. -/
abbrev Text := List Rune

/-- A text without stray bytes. -/
abbrev runes (cs : List Char) : Text := cs.map Rune.char

/-- The text of a string literal. -/
def lit (s : String) : Text := runes s.toList

/-- `unicode.IsSpace`. -/
def isSpaceChar (c : Char) : Bool :=
  let n := c.toNat
  (9 ≤ n && n ≤ 13) || n == 0x20 || n == 0x85 || n == 0xA0 || n == 0x1680 ||
    (0x2000 ≤ n && n ≤ 0x200A) || n == 0x2028 || n == 0x2029 || n == 0x202F || n == 0x205F ||
    n == 0x3000

theorem isSpaceChar_of_printable {c : Char} (h1 : 33 ≤ c.toNat) (h2 : c.toNat ≤ 126) :
    isSpaceChar c = false := by
  simp only [isSpaceChar, Bool.or_eq_false_iff, Bool.and_eq_false_iff, decide_eq_false_iff_not,
    beq_eq_false_iff_ne, ne_eq]
  omega

/-- `unicode.IsSpace` on a decoding step; a stray byte decodes to U+FFFD, which is no space. -/
def Rune.isSpace : Rune → Bool
  | .char c => isSpaceChar c
  | .stray _ => false

/-- `strings.Split(text, "\n")`. -/
def lines (text : Text) : List Text := text.splitOn (.char '\n')

/-- `strings.Fields`: the maximal runs without white space. -/
def fields (text : Text) : List Text := (text.splitOnP Rune.isSpace).filter (· ≠ [])

/-- The code points of a text without stray bytes. -/
def Text.chars? : Text → Option (List Char)
  | [] => some []
  | .char c :: t => (Text.chars? t).map (c :: ·)
  | .stray _ :: _ => none

@[simp] theorem Text.chars?_runes (cs : List Char) : Text.chars? (runes cs) = some cs := by
  induction cs with
  | nil => rfl
  | cons c cs ih => rw [runes, List.map_cons, Text.chars?, ih, Option.map_some]

@[simp] theorem Text.chars?_lit (s : String) : Text.chars? (lit s) = some s.toList :=
  Text.chars?_runes s.toList

/-! ### Fields -/

section Fields

variable {a b g : Text} {r : Rune}

/-- White space separates fields. -/
theorem fields_append_cons (a b : Text) (h : r.isSpace) :
    fields (a ++ r :: b) = fields a ++ fields b := by
  unfold fields
  rw [List.splitOnP_append_cons a b h, List.filter_append]

theorem fields_solid (hne : a ≠ []) (h : ∀ r ∈ a, r.isSpace = false) : fields a = [a] := by
  unfold fields
  rw [List.splitOnP_eq_singleton h, List.filter_cons_of_pos (by simpa using hne), List.filter_nil]

theorem fields_spaces_append (hg : ∀ r ∈ g, r.isSpace) : fields (g ++ a) = fields a := by
  induction g with
  | nil => rfl
  | cons r g ih =>
    have hr := fields_append_cons [] (g ++ a) (hg r (by simp))
    rw [List.nil_append] at hr
    rw [List.cons_append, hr, ih fun x hx => hg x (by simp [hx])]
    rfl

theorem fields_spaces (hg : ∀ r ∈ g, r.isSpace) : fields g = [] := by
  have h := fields_spaces_append (a := []) hg
  rwa [List.append_nil] at h

theorem fields_append_spaces (a : Text) (hg : ∀ r ∈ g, r.isSpace) : fields (a ++ g) = fields a := by
  cases g with
  | nil => rw [List.append_nil]
  | cons r g =>
    have htail : ∀ x ∈ g, x.isSpace := fun x hx => hg x (List.mem_cons_of_mem r hx)
    rw [fields_append_cons a g (hg r List.mem_cons_self), fields_spaces htail, List.append_nil]

/-- A gap of white space separates fields. -/
theorem fields_gap (a b : Text) (hne : g ≠ []) (hg : ∀ r ∈ g, r.isSpace) :
    fields (a ++ (g ++ b)) = fields a ++ fields b := by
  cases g with
  | nil => exact absurd rfl hne
  | cons r g =>
    rw [List.cons_append, fields_append_cons a _ (hg r (by simp)),
      fields_spaces_append fun x hx => hg x (by simp [hx])]

/-- The first field goes on at least as long as there is no white space. -/
theorem fields_solid_append (hne : a ≠ []) (h : ∀ r ∈ a, r.isSpace = false) :
    ∃ w fs, fields (a ++ b) = (a ++ w) :: fs := by
  induction b generalizing a with
  | nil => exact ⟨[], [], by rw [List.append_nil, fields_solid hne h]⟩
  | cons r b ih =>
    cases hr : r.isSpace with
    | true =>
      refine ⟨[], fields b, ?_⟩
      rw [fields_append_cons a b hr, fields_solid hne h, List.append_nil, List.singleton_append]
    | false =>
      obtain ⟨w, fs, hfs⟩ := ih (a := a ++ [r]) (by simp) fun x hx => by
        rcases List.mem_append.mp hx with hx | hx
        · exact h x hx
        · rwa [List.mem_singleton.mp hx]
      refine ⟨r :: w, fs, ?_⟩
      rw [List.append_cons, hfs, List.append_assoc, List.singleton_append]

theorem fields_ne_nil (hr : r ∈ a) (h : r.isSpace = false) : fields a ≠ [] := by
  obtain ⟨p, q, rfl⟩ := List.append_of_mem hr
  induction p with
  | nil =>
    obtain ⟨w, fs, hfs⟩ := fields_solid_append (a := [r]) (b := q) (by simp) (by simpa using h)
    rw [List.nil_append, ← List.singleton_append, hfs]
    exact List.cons_ne_nil _ _
  | cons x p ih =>
    cases hx : x.isSpace with
    | true =>
      have hsep := fields_append_cons [] (p ++ r :: q) hx
      rw [List.nil_append] at hsep
      rw [List.cons_append, hsep]
      exact List.append_ne_nil_of_right_ne_nil _ (ih (by simp))
    | false =>
      obtain ⟨w, fs, hfs⟩ := fields_solid_append (a := [x]) (b := p ++ r :: q) (by simp)
        (by simpa using hx)
      rw [List.cons_append, ← List.singleton_append, hfs]
      exact List.cons_ne_nil _ _

end Fields

/-! ### Quoting -/

/-- The lower-case hexadecimal digit of `n % 16`. -/
def hexDigit (n : ℕ) : Char := "0123456789abcdef".toList.getD (n % 16) '0'

/-- The last `w` hexadecimal digits of `n`. -/
def hexDigits : ℕ → ℕ → List Char
  | 0, _ => []
  | w + 1, n => hexDigits w (n / 16) ++ [hexDigit n]

/-- `strconv.IsPrint`; the table above Latin-1 is the argument. -/
def isPrint (table : Char → Bool) (c : Char) : Bool :=
  let n := c.toNat
  if n ≤ 0xFF then (0x20 ≤ n && n < 0x7F) || (0xA1 ≤ n && n != 0xAD) else table c

/-- The backslash. -/
def backslash : Char := Char.ofNat 0x5C

/-- The double quote. -/
def doubleQuote : Char := Char.ofNat 0x22

/-- How `strconv.Quote` writes one decoding step. -/
def quoteRune (table : Char → Bool) : Rune → List Char
  | .stray b => backslash :: 'x' :: hexDigits 2 (0x80 + b)
  | .char c =>
    if c = doubleQuote ∨ c = backslash then [backslash, c]
    else if isPrint table c then [c]
    else match c.toNat with
      | 7 => [backslash, 'a']
      | 8 => [backslash, 'b']
      | 12 => [backslash, 'f']
      | 10 => [backslash, 'n']
      | 13 => [backslash, 'r']
      | 9 => [backslash, 't']
      | 11 => [backslash, 'v']
      | n =>
        if n < 0x20 ∨ n = 0x7F then backslash :: 'x' :: hexDigits 2 n
        else if n < 0x10000 then backslash :: 'u' :: hexDigits 4 n
        else backslash :: 'U' :: hexDigits 8 n

/-- `strconv.Quote`. -/
def quote (table : Char → Bool) (t : Text) : String :=
  String.ofList (doubleQuote :: t.flatMap (quoteRune table) ++ [doubleQuote])

example : quote (fun _ => true) (lit "a\tb") = "\"a\\tb\"" := by decide +kernel

/-! ### Decimal numbers -/

theorem toDigits_injective {m n : ℕ} (h : Nat.toDigits 10 m = Nat.toDigits 10 n) : m = n := by
  rw [← Nat.ofDigitChars_toDigits (b := 10) (n := m) (by decide) (by decide), h,
    Nat.ofDigitChars_toDigits (by decide) (by decide)]

theorem isDigit_of_mem_repr {n : ℕ} {c : Char} (h : c ∈ n.repr.toList) : c.isDigit := by
  rw [Nat.toList_repr] at h
  exact Nat.isDigit_of_mem_toDigits (by decide) (by decide) h

theorem repr_injective {m n : ℕ} (h : m.repr = n.repr) : m = n :=
  toDigits_injective (by rw [← Nat.toList_repr, h, Nat.toList_repr])

/-- A decimal integer is digits, after a minus sign if it is negative. -/
theorem toString_int_cases (n : ℤ) :
    (0 ≤ n ∧ toString n = n.natAbs.repr) ∨ (n < 0 ∧ toString n = "-" ++ n.natAbs.repr) := by
  cases n with
  | ofNat m => exact .inl ⟨Int.natCast_nonneg m, rfl⟩
  | negSucc m => exact .inr ⟨Int.negSucc_lt_zero m, rfl⟩

theorem isSpaceChar_of_isDigit {c : Char} (h : c.isDigit) : isSpaceChar c = false := by
  obtain ⟨h1, h2⟩ := Char.isDigit_iff_toNat.mp h
  exact isSpaceChar_of_printable (Nat.le_trans (by decide) h1) (Nat.le_trans h2 (by decide))

/-- A printed integer has no white space. -/
theorem toString_int_solid (n : ℤ) : ∀ c ∈ (toString n).toList, isSpaceChar c = false := by
  have hdigits : ∀ c ∈ n.natAbs.repr.toList, isSpaceChar c = false :=
    fun c hc => isSpaceChar_of_isDigit (isDigit_of_mem_repr hc)
  rcases toString_int_cases n with ⟨-, h⟩ | ⟨-, h⟩
  · rwa [h]
  · rw [h, String.toList_append]
    intro c hc
    rcases List.mem_append.mp hc with hc | hc
    · obtain rfl : c = '-' := List.mem_singleton.mp hc
      decide
    · exact hdigits c hc

theorem toString_int_ne_nil (n : ℤ) : (toString n).toList ≠ [] := by
  rcases toString_int_cases n with ⟨-, h⟩ | ⟨-, h⟩
  · rw [h, Nat.toList_repr]
    exact Nat.toDigits_ne_nil
  · rw [h, String.toList_append]
    exact List.append_ne_nil_of_left_ne_nil (by decide) _

theorem space_notMem_toString (n : ℤ) : ' ' ∉ (toString n).toList :=
  fun h => absurd (toString_int_solid n ' ' h) (by decide)

theorem minus_notMem_repr (n : ℕ) : '-' ∉ n.repr.toList :=
  fun h => absurd (isDigit_of_mem_repr h) (by decide)

theorem toString_int_injective {m n : ℤ} (h : toString m = toString n) : m = n := by
  rcases toString_int_cases m with ⟨hm, hm'⟩ | ⟨hm, hm'⟩ <;>
    rcases toString_int_cases n with ⟨hn, hn'⟩ | ⟨hn, hn'⟩ <;> rw [hm', hn'] at h
  · have := repr_injective h
    omega
  · refine absurd ?_ (minus_notMem_repr m.natAbs)
    rw [h, String.toList_append]
    exact List.mem_append_left _ (by decide)
  · refine absurd ?_ (minus_notMem_repr n.natAbs)
    rw [← h, String.toList_append]
    exact List.mem_append_left _ (by decide)
  · rw [String.append_right_inj] at h
    have := repr_injective h
    omega

/-- A string has one last word. -/
theorem last_word_inj {s s' w w' : String} (h : s ++ (" " ++ w) = s' ++ (" " ++ w'))
    (hw : ' ' ∉ w.toList) (hw' : ' ' ∉ w'.toList) : w = w' := by
  have hl := congrArg String.toList h
  simp only [String.toList_append, String.reduceToList, List.singleton_append] at hl
  rw [← String.toList_inj]
  rcases List.append_eq_append_iff.mp hl with ⟨a, -, ha⟩ | ⟨a, -, ha⟩
  · cases a with
    | nil => exact (List.cons.inj ha).2
    | cons x a => exact absurd (by rw [(List.cons.inj ha).2]; simp) hw
  · cases a with
    | nil => exact (List.cons.inj ha).2.symm
    | cons x a => exact absurd (by rw [(List.cons.inj ha).2]; simp) hw'

end InfraDemo.Go
