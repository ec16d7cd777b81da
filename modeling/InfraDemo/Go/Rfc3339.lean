import Mathlib.Data.Int.Notation
import Mathlib.Data.Nat.Digits.Lemmas
import InfraDemo.Lib.Calendar

/-!
# Rfc3339 — Go's times as text

`Time.Format(time.RFC3339)` in UTC, for years of four digits, and `time.Parse(time.RFC3339, s)`.  A
time is the number of its nanoseconds since the first day of 1970.  The text has whole seconds, so
what is read is the time cut to its second (`parse_format`).
-/

namespace InfraDemo.Go

open Calendar

def nanosPerSecond : ℤ := 1000000000

/-- The seconds of a day. -/
def daySeconds : ℕ := 86400

/-- The seconds from the first day of year 0 to the first day of 1970. -/
def epochSeconds : ℕ := daysBeforeYear 1970 * daySeconds

/-- The second of the zero `time.Time`, the first of year 1. -/
def zeroSecond : ℤ := daysBeforeYear 1 * daySeconds - epochSeconds

/-! ### Digits -/

/-- The last `k` decimal digits of a number. -/
def digitsOf : ℕ → ℕ → List Char
  | 0, _ => []
  | k + 1, n => Nat.digitChar (n / 10 ^ k % 10) :: digitsOf k n

/-- The number whose digits are those of `n` and then `k` more from the text. -/
def takeDigits : ℕ → ℕ → List Char → Option (ℕ × List Char)
  | 0, n, cs => some (n, cs)
  | k + 1, n, c :: cs =>
    if c.isDigit then takeDigits k (n * 10 + (c.toNat - '0'.toNat)) cs else none
  | _ + 1, _, [] => none

theorem digitChar_isDigit {d : ℕ} (h : d < 10) :
    (Nat.digitChar d).isDigit = true ∧ (Nat.digitChar d).toNat - '0'.toNat = d := by
  revert d
  decide

theorem takeDigits_digitsOf (k n m : ℕ) (cs : List Char) :
    takeDigits k m (digitsOf k n ++ cs) = some (m * 10 ^ k + n % 10 ^ k, cs) := by
  induction k generalizing m with
  | zero => rw [digitsOf, List.nil_append, takeDigits, pow_zero, mul_one, Nat.mod_one, add_zero]
  | succ k ih =>
    obtain ⟨hdigit, hvalue⟩ := digitChar_isDigit (Nat.mod_lt (n / 10 ^ k) (by decide : 0 < 10))
    rw [digitsOf, List.cons_append, takeDigits, if_pos hdigit, hvalue, ih, Nat.mod_pow_succ]
    congr 2
    ring

/-- A number with no more digits than are written is read as it is. -/
theorem takeDigits_of_lt {k n : ℕ} (h : n < 10 ^ k) (cs : List Char) :
    takeDigits k 0 (digitsOf k n ++ cs) = some (n, cs) := by
  rw [takeDigits_digitsOf, zero_mul, zero_add, Nat.mod_eq_of_lt h]

/-! ### Format -/

/-- A date and a time of day in UTC, a year in four digits. -/
def rfc3339Text (date : Date) (hour minute second : ℕ) : List Char :=
  digitsOf 4 date.year ++ '-' :: (digitsOf 2 date.month ++ '-' :: (digitsOf 2 date.day ++ 'T' ::
    (digitsOf 2 hour ++ ':' :: (digitsOf 2 minute ++ ':' :: (digitsOf 2 second ++ ['Z'])))))

/-- `t.UTC().Format(time.RFC3339)`, for years 0 to 9999. -/
def formatRfc3339 (t : ℤ) : String :=
  let seconds := (t / nanosPerSecond + epochSeconds).toNat
  let clock := seconds % daySeconds
  String.ofList (rfc3339Text (ofNumber (seconds / daySeconds)) (clock / 3600) (clock / 60 % 60)
    (clock % 60))

/-! ### Parse -/

def expect (c : Char) : List Char → Option (List Char)
  | [] => none
  | d :: cs => if d = c then some cs else none

@[simp] theorem expect_cons (c : Char) (cs : List Char) : expect c (c :: cs) = some cs := if_pos rfl

/-- The hour may have one digit. -/
def takeHour (cs : List Char) : Option (ℕ × List Char) := takeDigits 2 0 cs <|> takeDigits 1 0 cs

/-- Nanoseconds, from a fraction that may be there. -/
def takeFraction (cs : List Char) : ℕ × List Char :=
  match cs with
  | p :: d :: rest =>
    if (p = '.' ∨ p = ',') ∧ d.isDigit then
      let ds := (d :: rest).takeWhile Char.isDigit
      let nine := ds.take 9 ++ List.replicate (9 - ds.length) '0'
      (nine.foldl (fun n c => n * 10 + (c.toNat - '0'.toNat)) 0,
        (d :: rest).dropWhile Char.isDigit)
    else (0, cs)
  | _ => (0, cs)

/-- The offset from UTC in seconds. -/
def takeZone : List Char → Option (ℤ × List Char)
  | 'Z' :: cs => some (0, cs)
  | sign :: cs => do
    let (hours, cs) ← takeDigits 2 0 cs
    let cs ← expect ':' cs
    let (minutes, cs) ← takeDigits 2 0 cs
    if 24 < hours ∨ 60 < minutes then none
    else if sign = '+' then some ((hours * 3600 + minutes * 60 : ℕ), cs)
    else if sign = '-' then some (-(hours * 3600 + minutes * 60 : ℕ), cs)
    else none
  | [] => none

/-- `time.Parse(time.RFC3339, s)`. -/
def parseRfc3339 (s : String) : Option ℤ := do
  let (year, cs) ← takeDigits 4 0 s.toList
  let cs ← expect '-' cs
  let (month, cs) ← takeDigits 2 0 cs
  let cs ← expect '-' cs
  let (day, cs) ← takeDigits 2 0 cs
  let cs ← expect 'T' cs
  let (hour, cs) ← takeHour cs
  let cs ← expect ':' cs
  let (minute, cs) ← takeDigits 2 0 cs
  let cs ← expect ':' cs
  let (second, cs) ← takeDigits 2 0 cs
  let (nanos, cs) := takeFraction cs
  let (offset, cs) ← takeZone cs
  let date : Date := { year, month, day }
  if date.Valid ∧ hour < 24 ∧ minute < 60 ∧ second < 60 ∧ cs = [] then
    let seconds : ℕ := date.number * daySeconds + hour * 3600 + minute * 60 + second
    some ((seconds - epochSeconds - offset) * nanosPerSecond + nanos)
  else none

example : parseRfc3339 "2024-02-29T23:59:59.25+01:00" = some 1709247599250000000 := by
  decide +kernel

/-- The year of a second has four digits. -/
def FourDigitYear (seconds : ℤ) : Prop :=
  -(epochSeconds : ℤ) ≤ seconds ∧ seconds + epochSeconds < daysBeforeYear 10000 * daySeconds

/-- The digits of a date and a time of day are read. -/
theorem parse_text {date : Date} {hour minute second : ℕ} (hvalid : date.Valid)
    (hyear : date.year < 10000) (hhour : hour < 24) (hminute : minute < 60) (hsecond : second < 60) :
    parseRfc3339 (String.ofList (rfc3339Text date hour minute second)) =
      some (((date.number * daySeconds + hour * 3600 + minute * 60 + second : ℕ) - epochSeconds) *
        nanosPerSecond) := by
  have hday : date.day ≤ 31 := hvalid.day_le.trans (monthLength_le ..)
  have hmonth := hvalid.month_le
  have hread {n : ℕ} (hn : n < 100) (cs : List Char) :
      takeDigits 2 0 (digitsOf 2 n ++ cs) = some (n, cs) := takeDigits_of_lt hn cs
  have hreadHour (cs : List Char) : takeHour (digitsOf 2 hour ++ cs) = some (hour, cs) := by
    rw [takeHour, hread (by omega)]
    rfl
  unfold parseRfc3339 rfc3339Text
  rw [String.toList_ofList, takeDigits_of_lt hyear]
  simp only [Option.bind_eq_bind, Option.bind_some, expect_cons,
    hread (show date.month < 100 by omega), hread (show date.day < 100 by omega), hreadHour,
    hread (show minute < 100 by omega), hread (show second < 100 by omega)]
  have hfraction : takeFraction ['Z'] = (0, ['Z']) := rfl
  have hzone : takeZone ['Z'] = some (0, []) := rfl
  rw [hfraction, hzone, Option.bind_some]
  rw [if_pos ⟨hvalid, hhour, hminute, hsecond, rfl⟩, sub_zero, Nat.cast_zero, add_zero]

/-- **What is formatted is read** as the time cut to its second. -/
theorem parse_format {t : ℤ} (h : FourDigitYear (t / nanosPerSecond)) :
    parseRfc3339 (formatRfc3339 t) = some (t / nanosPerSecond * nanosPerSecond) := by
  obtain ⟨hlow, hhigh⟩ := h
  obtain ⟨n, hn⟩ : ∃ n : ℕ, t / nanosPerSecond + epochSeconds = n :=
    ⟨_, (Int.toNat_of_nonneg (by omega)).symm⟩
  have hyear : (ofNumber (n / daySeconds)).year < 10000 := by
    refine year_ofNumber_lt (Nat.div_lt_of_lt_mul ?_)
    rw [hn] at hhigh
    rw [Nat.mul_comm]
    exact_mod_cast hhigh
  have hclock : n % daySeconds < 86400 := Nat.mod_lt n (by decide)
  have hsplit : n / daySeconds * daySeconds + n % daySeconds = n := Nat.div_add_mod' n daySeconds
  unfold formatRfc3339
  rw [hn, Int.toNat_natCast]
  dsimp only
  rw [parse_text (valid_ofNumber _) hyear (by omega) (by omega) (by omega), number_ofNumber]
  congr 2
  omega

end InfraDemo.Go
