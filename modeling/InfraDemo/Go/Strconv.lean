import Mathlib.Data.Rat.Floor
import Mathlib.Data.Rat.Cast.Order
import Mathlib.Tactic.NormNum
import Mathlib.Tactic.Linarith
import InfraDemo.Go.Text

/-!
# Strconv — Go's number parsing and float64 to int32 conversion

`strconv.ParseFloat(s, 64)` and `strconv.Atoi` after their documentation: which strings are
accepted, the exact value denoted, and the two errors.  A finite float64 is the rational it is.
What the language leaves to the platform is a parameter (`Platform`): the rounding of the float
unit, the result of converting a float64 outside int32, and the table of printable code points.
-/

namespace InfraDemo.Go

/-- A float64 value. -/
inductive Float64 where
  | finite (q : ℚ)
  | inf (neg : Bool)
  | nan
  deriving DecidableEq

/-- The float unit: `nearest` is the float64 a literal is read as, `mul` the float64 product.  Every
integer of the int32 range is a float64 and rounding is monotone, so a product never crosses one. -/
structure FloatUnit where
  nearest : ℚ → ℚ
  mul : ℚ → ℚ → ℚ
  nearest_int : ∀ {n : ℤ}, |n| ≤ 2 ^ 31 → nearest n = n
  mul_ge : ∀ {x y : ℚ} {n : ℤ}, |n| ≤ 2 ^ 31 → (n : ℚ) ≤ x * y → (n : ℚ) ≤ mul x y
  mul_le : ∀ {x y : ℚ} {n : ℤ}, |n| ≤ 2 ^ 31 → x * y ≤ (n : ℚ) → mul x y ≤ (n : ℚ)

/-- Exact arithmetic. -/
def FloatUnit.exact : FloatUnit where
  nearest q := q
  mul x y := x * y
  nearest_int _ := rfl
  mul_ge _ h := h
  mul_le _ h := h

/-- What Go leaves to the platform. -/
structure Platform where
  unit : FloatUnit
  /-- `int32(x)` for an `x` that int32 cannot represent -/
  outOfRange : Float64 → Int32
  /-- printable code points above Latin-1 -/
  printable : Char → Bool

/-! ### Errors -/

inductive NumErr where
  | errSyntax
  | errRange
  deriving DecidableEq, Repr

/-- The texts of `strconv.ErrSyntax` and `strconv.ErrRange`. -/
def NumErr.text : NumErr → String
  | .errSyntax => "invalid syntax"
  | .errRange => "value out of range"

/-- `(*NumError).Error`. -/
def numErrorText (P : Platform) (fn : String) (num : Text) (e : NumErr) : String :=
  "strconv." ++ fn ++ ": parsing " ++ quote P.printable num ++ ": " ++ e.text

/-! ### ParseFloat -/

/-- The value of a decimal or (if `hex`) hexadecimal digit. -/
def digit? (hex : Bool) (c : Char) : Option ℕ :=
  if c.isDigit then some (c.toNat - '0'.toNat)
  else if hex && 'a' ≤ c.toLower && c.toLower ≤ 'f' then some (c.toLower.toNat - 'a'.toNat + 10)
  else none

/-- The state of `readFloat`'s mantissa loop: value of the digits, digits after the point. -/
structure Mantissa where
  value : ℕ := 0
  frac : ℕ := 0
  sawDot : Bool := false
  sawDigits : Bool := false

/-- `readFloat`'s mantissa loop; underscores are skipped here and checked by `underscoreOK`. -/
def readMantissa (hex : Bool) : List Char → Mantissa → Mantissa × List Char
  | [], m => (m, [])
  | c :: cs, m =>
    if c = '_' then readMantissa hex cs m
    else if c = '.' then
      if m.sawDot then (m, c :: cs) else readMantissa hex cs { m with sawDot := true }
    else match digit? hex c with
      | some d => readMantissa hex cs
          { value := m.value * (if hex then 16 else 10) + d
            frac := if m.sawDot then m.frac + 1 else m.frac
            sawDot := m.sawDot
            sawDigits := true }
      | none => (m, c :: cs)

/-- `readFloat`'s exponent digits; the exponent stops growing at 10000. -/
def readExpDigits : List Char → ℕ → ℕ × List Char
  | [], e => (e, [])
  | c :: cs, e =>
    if c = '_' then readExpDigits cs e
    else if c.isDigit then
      readExpDigits cs (if e < 10000 then e * 10 + (c.toNat - '0'.toNat) else e)
    else (e, c :: cs)

/-- `readFloat`'s exponent: marker, optional sign, at least one digit right after it.  A hexadecimal
mantissa must have one. -/
def readExponent (hex : Bool) : List Char → Option (ℤ × List Char)
  | [] => if hex then none else some (0, [])
  | c :: cs =>
    if c.toLower = (if hex then 'p' else 'e') then
      let (neg, ds) := match cs with
        | '+' :: ds => (false, ds)
        | '-' :: ds => (true, ds)
        | ds => (false, ds)
      match ds with
      | d :: _ =>
        if d.isDigit then
          let (e, rest) := readExpDigits ds 0
          some (if neg then -(e : ℤ) else e, rest)
        else none
      | [] => none
    else if hex then none else some (0, c :: cs)

/-- What `underscoreOK` saw last: the start, a digit or base prefix, an underscore, anything else. -/
inductive Saw where
  | start | digit | underscore | other
  deriving DecidableEq

/-- The loop of `underscoreOK`. -/
def underscoreLoop (hex : Bool) : List Char → Saw → Bool
  | [], saw => saw ≠ .underscore
  | c :: cs, saw =>
    if (digit? hex c).isSome then underscoreLoop hex cs .digit
    else if c = '_' then if saw = .digit then underscoreLoop hex cs .underscore else false
    else if saw = .underscore then false
    else underscoreLoop hex cs .other

/-- A string without its sign, and whether the sign was minus. -/
def stripSign : List Char → Bool × List Char
  | '+' :: cs => (false, cs)
  | '-' :: cs => (true, cs)
  | cs => (false, cs)

/-- `underscoreOK`, on a string without its sign: underscores only between digits or right after a
base prefix. -/
def underscoreOK (cs : List Char) : Bool :=
  match cs with
  | '0' :: b :: rest =>
    if b.toLower = 'b' ∨ b.toLower = 'o' ∨ b.toLower = 'x' then
      underscoreLoop (b.toLower = 'x') rest .digit
    else underscoreLoop false cs .start
  | _ => underscoreLoop false cs .start

/-- `m * b ^ e`. -/
def scale (b m : ℕ) : ℤ → ℚ
  | .ofNat k => (m * b ^ k : ℕ)
  | .negSucc k => mkRat m (b ^ (k + 1))

/-- `special`: infinities and NaN, in any case, NaN without a sign. -/
def special? (cs : List Char) : Option Float64 :=
  let (neg, rest) := stripSign cs
  let low := rest.map Char.toLower
  if low = "inf".toList ∨ low = "infinity".toList then some (.inf neg)
  else if cs.map Char.toLower = "nan".toList then some .nan
  else none

/-- The exact value a decimal or hexadecimal literal denotes. -/
def literalValue? (cs : List Char) : Option ℚ :=
  let (neg, body) := stripSign cs
  let (hex, digits) := match body with
    | '0' :: x :: c :: rest => if x.toLower = 'x' then (true, c :: rest) else (false, body)
    | _ => (false, body)
  let (m, rest) := readMantissa hex digits {}
  if ¬ m.sawDigits then none
  else match readExponent hex rest with
    | some (e, []) =>
      if cs.contains '_' && !underscoreOK body then none
      else
        let v := if hex then scale 2 m.value (e - 4 * m.frac) else scale 10 m.value (e - m.frac)
        some (if neg then -v else v)
    | _ => none

example : literalValue? "-0x1_0.8p-1".toList = some (-33 / 4) := by decide +kernel

example : literalValue? "1__0".toList = none := by decide +kernel

/-- The least magnitude that rounds to an infinite float64. -/
def floatOverflow : ℚ := 2 ^ 1024 - 2 ^ 970

/-- `strconv.ParseFloat(s, 64)`. -/
def parseFloat (P : Platform) (s : Text) : Except NumErr Float64 :=
  match s.chars? with
  | none => .error .errSyntax
  | some cs =>
    match special? cs with
    | some x => .ok x
    | none =>
      match literalValue? cs with
      | none => .error .errSyntax
      | some q => if floatOverflow ≤ |q| then .error .errRange else .ok (.finite (P.unit.nearest q))

theorem int32_lt_floatOverflow : (2 : ℚ) ^ 31 < floatOverflow := by decide +kernel

/-- A literal of moderate size is read as the nearest float64. -/
theorem parseFloat_of_abs_le {P : Platform} {cs : List Char} {q : ℚ} (hs : special? cs = none)
    (hq : literalValue? cs = some q) (hle : |q| ≤ 2 ^ 31) :
    parseFloat P (runes cs) = .ok (.finite (P.unit.nearest q)) := by
  have hsmall : ¬ floatOverflow ≤ |q| := not_le.mpr (hle.trans_lt int32_lt_floatOverflow)
  simp only [parseFloat, Text.chars?_runes, hs, hq, if_neg hsmall]

/-- A whole number in the int32 range is read exactly. -/
theorem parseFloat_int (P : Platform) {s : String} {n : ℤ} (hs : special? s.toList = none)
    (hq : literalValue? s.toList = some (n : ℚ)) (hn : |n| ≤ 2 ^ 31) :
    parseFloat P (lit s) = .ok (.finite n) := by
  have hle : |(n : ℚ)| ≤ 2 ^ 31 := by exact_mod_cast hn
  rw [lit, parseFloat_of_abs_le hs hq hle, P.unit.nearest_int hn]

/-! ### Atoi -/

/-- The digit loop of `ParseUint` in base 10, after digits of the value `n`.  It stops at the first
byte that is no digit and at the first digit that leaves 64 bits, whichever comes first. -/
def parseUintLoop : Text → ℕ → Except NumErr ℕ
  | [], n => .ok n
  | .char c :: s, n =>
    if c.isDigit then
      let n1 := n * 10 + (c.toNat - '0'.toNat)
      if n1 < 2 ^ 64 then parseUintLoop s n1 else .error .errRange
    else .error .errSyntax
  | .stray _ :: _, _ => .error .errSyntax

/-- `strconv.ParseUint(s, 10, 64)`. -/
def parseUint : Text → Except NumErr ℕ
  | [] => .error .errSyntax
  | r :: s => parseUintLoop (r :: s) 0

/-- A text without its sign, and whether the sign was minus. -/
def Text.stripSign : Text → Bool × Text
  | .char '+' :: s => (false, s)
  | .char '-' :: s => (true, s)
  | s => (false, s)

/-- `strconv.Atoi` with 64-bit `int`. -/
def atoi (s : Text) : Except NumErr ℤ :=
  match parseUint s.stripSign.2 with
  | .error e => .error e
  | .ok un =>
    let v : ℤ := if s.stripSign.1 then -un else un
    if -2 ^ 63 ≤ v ∧ v < 2 ^ 63 then .ok v else .error .errRange

/-- The value of a nonempty string of decimal digits. -/
def decimal? (cs : List Char) : Option ℕ :=
  if cs ≠ [] ∧ cs.all Char.isDigit then
    some (cs.foldl (fun n c => n * 10 + (c.toNat - '0'.toNat)) 0)
  else none

theorem Text.stripSign_runes (cs : List Char) :
    Text.stripSign (runes cs) = ((Go.stripSign cs).1, runes (Go.stripSign cs).2) := by
  unfold Go.stripSign
  split
  · rfl
  · rfl
  · next hplus hminus =>
    unfold Text.stripSign
    split
    · next s heq =>
      obtain ⟨c, ds, rfl, hc, -⟩ := List.map_eq_cons_iff.mp heq
      cases hc
      exact absurd rfl (hplus ds)
    · next s heq =>
      obtain ⟨c, ds, rfl, hc, -⟩ := List.map_eq_cons_iff.mp heq
      cases hc
      exact absurd rfl (hminus ds)
    · rfl

theorem le_foldl_digits (cs : List Char) (n : ℕ) :
    n ≤ cs.foldl (fun n c => n * 10 + (c.toNat - '0'.toNat)) n := by
  induction cs generalizing n with
  | nil => exact le_rfl
  | cons c cs ih =>
    have hstep : n ≤ n * 10 + (c.toNat - '0'.toNat) := by omega
    exact hstep.trans (ih _)

/-- Digits are read as their decimal value, if that fits into 64 bits. -/
theorem parseUintLoop_digits {cs : List Char} (h : ∀ c ∈ cs, c.isDigit) {n : ℕ} (hn : n < 2 ^ 64) :
    parseUintLoop (runes cs) n =
      if cs.foldl (fun n c => n * 10 + (c.toNat - '0'.toNat)) n < 2 ^ 64 then
        .ok (cs.foldl (fun n c => n * 10 + (c.toNat - '0'.toNat)) n)
      else .error .errRange := by
  induction cs generalizing n with
  | nil => rw [runes, List.map_nil, parseUintLoop, List.foldl_nil, if_pos hn]
  | cons c cs ih =>
    have hc : c.isDigit := h c List.mem_cons_self
    rw [runes, List.map_cons, parseUintLoop, if_pos hc, List.foldl_cons]
    by_cases hlt : n * 10 + (c.toNat - '0'.toNat) < 2 ^ 64
    · rw [if_pos hlt]
      exact ih (fun d hd => h d (List.mem_cons_of_mem c hd)) hlt
    · have hle := le_foldl_digits cs (n * 10 + (c.toNat - '0'.toNat))
      rw [if_neg hlt, if_neg fun hlast => hlt (hle.trans_lt hlast)]

/-- What is no digit is an error, if no digit before it is one. -/
theorem parseUintLoop_error {cs : List Char} {c : Char} (hmem : c ∈ cs) (hc : c.isDigit = false)
    (n : ℕ) : ∃ e, parseUintLoop (runes cs) n = .error e := by
  induction cs generalizing n with
  | nil => cases hmem
  | cons d cs ih =>
    rw [runes, List.map_cons, parseUintLoop]
    dsimp only
    split_ifs with hd
    · rcases List.mem_cons.mp hmem with rfl | hmem
      · rw [hc] at hd
        cases hd
      · exact ih hmem _
    · exact ⟨_, rfl⟩
    · exact ⟨_, rfl⟩

theorem parseUint_of_decimal? {cs : List Char} {n : ℕ} (h : decimal? cs = some n) :
    parseUint (runes cs) = if n < 2 ^ 64 then .ok n else .error .errRange := by
  unfold decimal? at h
  split_ifs at h with hcs
  cases h
  cases cs with
  | nil => exact absurd rfl hcs.1
  | cons c cs => exact parseUintLoop_digits (List.all_eq_true.mp hcs.2) (by norm_num)

theorem parseUint_of_not_decimal {cs : List Char} (h : decimal? cs = none) :
    ∃ e, parseUint (runes cs) = .error e := by
  cases cs with
  | nil => exact ⟨_, rfl⟩
  | cons c cs =>
    have hall : ¬ (c :: cs).all Char.isDigit := fun hall => by
      rw [decimal?, if_pos ⟨List.cons_ne_nil c cs, hall⟩] at h
      cases h
    simp only [List.all_eq_true, not_forall, Bool.not_eq_true] at hall
    obtain ⟨d, hd, hdigit⟩ := hall
    exact parseUintLoop_error hd hdigit 0

/-- `Atoi` of digits, with or without a sign. -/
theorem atoi_of_decimal? {cs : List Char} {n : ℕ} (h : decimal? (stripSign cs).2 = some n) :
    atoi (runes cs) = if -2 ^ 63 ≤ (if (stripSign cs).1 then -n else n : ℤ) ∧
      (if (stripSign cs).1 then -n else n : ℤ) < 2 ^ 63 then
        .ok (if (stripSign cs).1 then -n else n : ℤ)
      else .error .errRange := by
  unfold atoi
  rw [Text.stripSign_runes]
  simp only [parseUint_of_decimal? h]
  by_cases hn : n < 2 ^ 64
  · simp only [if_pos hn]
  · simp only [if_neg hn]
    rw [if_neg]
    split_ifs <;> omega

/-- A number that leaves 64 bits before its first bad byte is out of range. -/
example : atoi (lit "99999999999999999999x") = .error .errRange := by decide +kernel

example : atoi (lit "9999999999999999999x") = .error .errSyntax := by decide +kernel

/-! ### The spellings of integers -/

/-- An optional sign and decimal digits. -/
def IsDecimal (cs : List Char) : Prop := (stripSign cs).2 ≠ [] ∧ (stripSign cs).2.all Char.isDigit

instance (cs : List Char) : Decidable (IsDecimal cs) := inferInstanceAs (Decidable (_ ∧ _))

section IsDecimal

variable {cs ds : List Char} {c : Char}

theorem toLower_of_isDigit (h : c.isDigit) : c.toLower = c := by
  have hle : c.val ≤ 57 := by
    unfold Char.isDigit at h
    simp only [Bool.and_eq_true, decide_eq_true_eq] at h
    exact h.2
  unfold Char.toLower
  refine dif_neg fun hup => ?_
  have hlt := UInt32.le_trans hup.1 hle
  exact absurd hlt (by decide)

theorem digit?_of_isDigit (h : c.isDigit) : digit? false c = some (c.toNat - '0'.toNat) := if_pos h

theorem ne_of_isDigit {d : Char} (h : c.isDigit) (hd : d.isDigit = false) : c ≠ d := by
  rintro rfl
  rw [h] at hd
  cases hd

/-- Digits without a point are read as their decimal value. -/
theorem readMantissa_digits (hds : ∀ d ∈ ds, d.isDigit) {m : Mantissa} (hdot : m.sawDot = false) :
    readMantissa false ds m =
      ({ m with
          value := ds.foldl (fun n c => n * 10 + (c.toNat - '0'.toNat)) m.value
          sawDigits := m.sawDigits || !ds.isEmpty }, []) := by
  induction ds generalizing m with
  | nil =>
    rw [readMantissa, List.foldl_nil, List.isEmpty_nil, Bool.not_true, Bool.or_false]
  | cons d ds ih =>
    have hd : d.isDigit := hds d List.mem_cons_self
    have htail : ∀ x ∈ ds, x.isDigit := fun x hx => hds x (List.mem_cons_of_mem d hx)
    rw [readMantissa, if_neg (ne_of_isDigit hd (by decide)), if_neg (ne_of_isDigit hd (by decide)),
      digit?_of_isDigit hd]
    simp only [hdot, Bool.false_eq_true, if_false]
    rw [ih htail rfl, List.foldl_cons, List.isEmpty_cons, Bool.not_false, Bool.or_true,
      Bool.true_or]

theorem stripSign_cases (cs : List Char) : (stripSign cs).2 = cs ∨
    ∃ c, (c = '+' ∨ c = '-') ∧ cs = c :: (stripSign cs).2 := by
  unfold stripSign
  split
  · exact .inr ⟨_, .inl rfl, rfl⟩
  · exact .inr ⟨_, .inr rfl, rfl⟩
  · exact .inl rfl

/-- The characters of a decimal are digits, but for a sign. -/
theorem IsDecimal.mem (h : IsDecimal cs) (hc : c ∈ cs) : c.isDigit ∨ c = '+' ∨ c = '-' := by
  have hdigits : ∀ d ∈ (stripSign cs).2, d.isDigit := List.all_eq_true.mp h.2
  rcases stripSign_cases cs with heq | ⟨s, hs, heq⟩
  · rw [heq] at hdigits
    exact .inl (hdigits c hc)
  · rw [heq] at hc
    rcases List.mem_cons.mp hc with rfl | hc
    · exact .inr hs
    · exact .inl (hdigits c hc)

theorem scale_whole (b m : ℕ) : scale b m (0 - ((0 : ℕ) : ℤ)) = m := by
  show ((m * b ^ 0 : ℕ) : ℚ) = m
  rw [pow_zero, mul_one]

/-- **A decimal denotes the same number to `ParseFloat` as to `Atoi`.** -/
theorem IsDecimal.literalValue (h : IsDecimal cs) : ∃ n : ℕ,
    decimal? (stripSign cs).2 = some n ∧
      literalValue? cs = some (((if (stripSign cs).1 then -n else n : ℤ)) : ℚ) := by
  have hdigits : ∀ d ∈ (stripSign cs).2, d.isDigit := List.all_eq_true.mp h.2
  refine ⟨_, if_pos h, ?_⟩
  have hunder : cs.contains '_' = false := by
    rw [← Bool.not_eq_true, List.contains_iff_mem]
    intro hmem
    rcases h.mem hmem with hd | hd | hd <;> exact absurd hd (by decide)
  have hbase : (match (stripSign cs).2 with
      | '0' :: x :: c :: rest => if x.toLower = 'x' then (true, c :: rest) else
          (false, (stripSign cs).2)
      | _ => (false, (stripSign cs).2)) = (false, (stripSign cs).2) := by
    split
    · next x c rest heq =>
      have hx : x.isDigit := hdigits x (by rw [heq]; simp)
      rw [if_neg]
      rw [toLower_of_isDigit hx]
      exact ne_of_isDigit hx (by decide)
    · rfl
  unfold literalValue?
  simp only [hbase, readMantissa_digits hdigits (m := {}) rfl, readExponent, hunder]
  have hne : (stripSign cs).2.isEmpty = false := List.isEmpty_eq_false_iff.mpr h.1
  simp only [hne, Bool.not_false, Bool.or_true, not_true, if_false, Bool.false_eq_true,
    Bool.false_and, scale_whole]
  split_ifs
  · push_cast
    rfl
  · rfl

/-- `Atoi` reads the decimals, and nothing else. -/
theorem atoi_of_isDecimal {n : ℕ} (h : IsDecimal cs) (hv : literalValue? cs = some (n : ℚ))
    (hn : n < 2 ^ 63) : atoi (runes cs) = .ok n := by
  obtain ⟨k, hk, hval⟩ := h.literalValue
  have heq : (if (stripSign cs).1 then -(k : ℤ) else k) = n := by
    rw [hval, Option.some_inj] at hv
    exact_mod_cast hv
  have hfit : -2 ^ 63 ≤ (n : ℤ) ∧ (n : ℤ) < 2 ^ 63 := by omega
  simp only [atoi_of_decimal? hk, heq, if_pos hfit]

theorem atoi_of_not_isDecimal (h : ¬ IsDecimal cs) : ∃ e, atoi (runes cs) = .error e := by
  have hnone : decimal? (stripSign cs).2 = none := if_neg h
  obtain ⟨e, he⟩ := parseUint_of_not_decimal hnone
  unfold atoi
  rw [Text.stripSign_runes]
  simp only [he]
  exact ⟨e, rfl⟩

end IsDecimal

/-! ### Printed integers -/

theorem decimal?_repr (n : ℕ) : decimal? n.repr.toList = some n := by
  have hne : n.repr.toList ≠ [] := by
    rw [Nat.toList_repr]
    exact Nat.toDigits_ne_nil
  have hdigits : n.repr.toList.all Char.isDigit :=
    List.all_eq_true.mpr fun c hc => isDigit_of_mem_repr hc
  have hvalue := Nat.ofDigitChars_ten_toDigits (n := n)
  rw [Nat.ofDigitChars_eq_foldl] at hvalue
  rw [decimal?, if_pos ⟨hne, hdigits⟩, Nat.toList_repr]
  simpa only [Nat.mul_comm] using congrArg some hvalue

theorem stripSign_repr (n : ℕ) : stripSign n.repr.toList = (false, n.repr.toList) := by
  have hsign : ∀ c ∈ n.repr.toList, c ≠ '+' ∧ c ≠ '-' := fun c hc =>
    ⟨ne_of_isDigit (isDigit_of_mem_repr hc) (by decide),
      ne_of_isDigit (isDigit_of_mem_repr hc) (by decide)⟩
  unfold stripSign
  split
  · next heq => exact absurd rfl (hsign '+' (by rw [heq]; exact List.mem_cons_self)).1
  · next heq => exact absurd rfl (hsign '-' (by rw [heq]; exact List.mem_cons_self)).2
  · rfl

/-- `Atoi` reads a printed integer back, if it fits into 64 bits. -/
theorem atoi_toString (n : ℤ) : atoi (lit (toString n)) =
    if -2 ^ 63 ≤ n ∧ n < 2 ^ 63 then .ok n else .error .errRange := by
  have hsigned : decimal? (stripSign (toString n).toList).2 = some n.natAbs ∧
      (if (stripSign (toString n).toList).1 then -(n.natAbs : ℤ) else n.natAbs) = n := by
    rcases toString_int_cases n with ⟨hn, hs⟩ | ⟨hn, hs⟩
    · rw [hs, stripSign_repr]
      exact ⟨decimal?_repr _, Int.natAbs_of_nonneg hn⟩
    · have hstrip : stripSign ("-" ++ n.natAbs.repr).toList = (true, n.natAbs.repr.toList) := by
        rw [String.toList_append]
        rfl
      rw [hs, hstrip]
      refine ⟨decimal?_repr _, ?_⟩
      show -(n.natAbs : ℤ) = n
      omega
  simp only [lit, atoi_of_decimal? hsigned.1, hsigned.2]

/-! ### Conversion to int32 -/

/-- Discarding the fraction. -/
def truncate (q : ℚ) : ℤ := if 0 ≤ q then ⌊q⌋ else ⌈q⌉

/-- `v * 100`. -/
def Float64.timesHundred (P : Platform) : Float64 → Float64
  | .finite q => .finite (P.unit.mul q 100)
  | x => x

/-- `int32(x)` of a float64: truncation where int32 can represent it. -/
def Float64.toInt32 (P : Platform) (x : Float64) : Int32 :=
  match x with
  | .finite q =>
    if -2 ^ 31 ≤ truncate q ∧ truncate q < 2 ^ 31 then Int32.ofInt (truncate q) else P.outOfRange x
  | _ => P.outOfRange x

/-- The platform's result of `int32(x)`, where int32 cannot represent `x`. -/
def Float64.outOfInt32? (P : Platform) (x : Float64) : Option Int32 :=
  match x with
  | .finite q => if -2 ^ 31 ≤ truncate q ∧ truncate q < 2 ^ 31 then none else some (P.outOfRange x)
  | _ => some (P.outOfRange x)

theorem le_truncate {q : ℚ} {n : ℤ} (h : (n : ℚ) ≤ q) : n ≤ truncate q := by
  unfold truncate
  split_ifs with hq
  · exact Int.le_floor.mpr h
  · exact_mod_cast h.trans (Int.le_ceil q)

theorem truncate_le {q : ℚ} {n : ℤ} (h : q ≤ (n : ℚ)) : truncate q ≤ n := by
  unfold truncate
  split_ifs with hq
  · exact_mod_cast (Int.floor_le q).trans h
  · exact Int.ceil_le.mpr h

theorem truncate_of_abs_lt {q : ℚ} {n : ℤ} (h : |q| < (n : ℚ)) :
    -n < truncate q ∧ truncate q < n := by
  obtain ⟨hlow, hhigh⟩ := abs_lt.mp h
  have hn : (0 : ℚ) < n := (abs_nonneg q).trans_lt h
  have hn' : 0 < n := by exact_mod_cast hn
  unfold truncate
  split_ifs with hq
  · have hfloor : 0 ≤ ⌊q⌋ := Int.floor_nonneg.mpr hq
    exact ⟨by omega, Int.floor_lt.mpr hhigh⟩
  · have hceil : ⌈q⌉ ≤ 0 := Int.ceil_le.mpr (by push_cast; linarith)
    exact ⟨Int.lt_ceil.mpr (by push_cast; exact hlow), by omega⟩

theorem truncate_int (n : ℤ) : truncate n = n :=
  le_antisymm (truncate_le le_rfl) (le_truncate le_rfl)

theorem FloatUnit.mul_int (unit : FloatUnit) {x y : ℚ} {n : ℤ} (hn : |n| ≤ 2 ^ 31)
    (h : x * y = n) : unit.mul x y = n :=
  le_antisymm (unit.mul_le hn h.le) (unit.mul_ge hn h.ge)

theorem toInt32_finite (P : Platform) {q : ℚ} (h1 : -2 ^ 31 ≤ truncate q)
    (h2 : truncate q < 2 ^ 31) : ((Float64.finite q).toInt32 P).toInt = truncate q := by
  simp only [Float64.toInt32, h1, h2, and_self, if_true]
  exact Int32.toInt_ofInt_of_le h1 h2

/-- Truncation to a percentage. -/
theorem truncate_percent_iff {q : ℚ} :
    0 ≤ truncate q ∧ truncate q ≤ 100 ↔ -1 < q ∧ q < 101 := by
  unfold truncate
  split_ifs with hq
  · have hfloor : 0 ≤ ⌊q⌋ := Int.floor_nonneg.mpr hq
    have hlt : ⌊q⌋ < 101 ↔ q < 101 := by exact_mod_cast Int.floor_lt (a := q) (z := 101)
    rw [← hlt]
    constructor
    · exact fun h => ⟨by linarith, by omega⟩
    · exact fun h => ⟨hfloor, by omega⟩
  · have hceil : ⌈q⌉ ≤ 0 := Int.ceil_le.mpr (by push_cast; linarith)
    have hlt : -1 < ⌈q⌉ ↔ -1 < q := by exact_mod_cast Int.lt_ceil (a := q) (z := -1)
    rw [← hlt]
    constructor
    · exact fun h => ⟨by omega, by linarith⟩
    · exact fun h => ⟨by omega, by omega⟩

theorem outOfInt32?_eq_some {P : Platform} {x : Float64} {u : Int32}
    (h : x.outOfInt32? P = some u) : u = P.outOfRange x := by
  unfold Float64.outOfInt32? at h
  split at h
  · split_ifs at h
    exact (Option.some_inj.mp h).symm
  · exact (Option.some_inj.mp h).symm

theorem toInt32_of_some {P : Platform} {x : Float64} {u : Int32} (h : x.outOfInt32? P = some u) :
    x.toInt32 P = u := by
  unfold Float64.outOfInt32? at h
  unfold Float64.toInt32
  cases x with
  | finite q =>
    by_cases hfit : -2 ^ 31 ≤ truncate q ∧ truncate q < 2 ^ 31
    · simp only [if_pos hfit] at h
      cases h
    · simp only [if_neg hfit] at h ⊢
      exact Option.some_inj.mp h
  | inf neg => exact Option.some_inj.mp h
  | nan => exact Option.some_inj.mp h

theorem toInt32_of_none {P : Platform} {x : Float64} (h : x.outOfInt32? P = none) :
    ∃ q, x = .finite q ∧ (x.toInt32 P).toInt = truncate q := by
  unfold Float64.outOfInt32? at h
  cases x with
  | finite q =>
    by_cases hfit : -2 ^ 31 ≤ truncate q ∧ truncate q < 2 ^ 31
    · exact ⟨q, rfl, toInt32_finite P hfit.1 hfit.2⟩
    · simp only [if_neg hfit] at h
      cases h
  | inf neg => cases h
  | nan => cases h

theorem timesHundred_eq_finite {P : Platform} {x : Float64} {r : ℚ}
    (h : x.timesHundred P = .finite r) : ∃ q, x = .finite q ∧ r = P.unit.mul q 100 := by
  cases x with
  | finite q => exact ⟨q, rfl, (Float64.finite.inj h).symm⟩
  | inf neg => cases h
  | nan => cases h

end InfraDemo.Go
