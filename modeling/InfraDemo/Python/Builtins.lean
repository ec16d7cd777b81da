import Mathlib.Data.Rat.Floor
import InfraDemo.Go.Text

/-!
# Builtins — the Python that the scripts use

`str.strip`, the values of `json.loads` with `dict.get`, `[0]`, truth and `or`, and `round`.  `none` is
an exception.
-/

namespace InfraDemo.Python

/-! ### Text -/

/-- `str.isspace` of one character: the white space of Go, and four separators. -/
def isSpace (c : Char) : Bool := Go.isSpaceChar c || 0x1C ≤ c.toNat && c.toNat ≤ 0x1F

/-- `str.strip()` -/
def strip (cs : List Char) : List Char :=
  ((cs.dropWhile isSpace).reverse.dropWhile isSpace).reverse

/-! ### Values -/

inductive Json where
  | null
  | bool (b : Bool)
  | number (q : ℚ)
  /-- `NaN`, `Infinity` and `-Infinity` -/
  | nonFinite
  | str (cs : List Char)
  | arr (xs : List Json)
  | obj (fields : List (String × Json))

namespace Json

/-- `bool(x)` -/
def truthy : Json → Bool
  | null => false
  | bool b => b
  | number q => q ≠ 0
  | nonFinite => true
  | str cs => !cs.isEmpty
  | arr xs => !xs.isEmpty
  | obj fields => !fields.isEmpty

/-- `x.get(key, default)` -/
def get (x : Json) (key : String) (default : Json) : Option Json :=
  match x with
  | obj fields => some ((fields.lookup key).getD default)
  | _ => none

/-- `x[0]` -/
def first : Json → Option Json
  | arr (x :: _) => some x
  | str (c :: _) => some (str [c])
  | _ => none

/-- `x or y` -/
def or (x y : Json) : Json := if x.truthy then x else y

/-- `"".join(xs)` -/
def join : List Json → Option (List Char)
  | [] => some []
  | str cs :: xs => (join xs).map (cs ++ ·)
  | _ :: _ => none

theorem truthy_bool (b : Bool) : (bool b).truthy = b := rfl

theorem get_obj (fields : List (String × Json)) (key : String) (default : Json) :
    (obj fields).get key default = some ((fields.lookup key).getD default) := rfl

theorem join_strs (texts : List (List Char)) : join (texts.map str) = some texts.flatten := by
  induction texts with
  | nil => rfl
  | cons t texts ih =>
    rw [List.map_cons, join, ih]
    rfl

end Json

/-! ### Numbers -/

/-- `t or u` of a time that may be `None`. -/
def orTime (t : Option ℚ) (u : ℚ) : ℚ :=
  match t with
  | some v => if v = 0 then u else v
  | none => u

/-- `round(x, digits)`, halves to even. -/
def roundTo (x : ℚ) (digits : ℕ) : ℚ :=
  let below := ⌊10 ^ digits * x⌋
  let rest := 10 ^ digits * x - below
  let whole := if rest < 1 / 2 ∨ rest = 1 / 2 ∧ below % 2 = 0 then below else below + 1
  whole / 10 ^ digits

example : roundTo (1 / 4) 1 = 1 / 5 := by decide +kernel

end InfraDemo.Python
