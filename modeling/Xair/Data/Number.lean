import Xair.Data.Text
import Mathlib.Data.Rat.Defs

/-!
# Numbers

An `int` is an `Int`. A `float` is the rational it denotes, an infinity or a
NaN, so comparisons between `int` and `float` are exact, as in Python.
-/

namespace Xair

inductive PyFloat where
  | fin (q : ℚ)
  | inf (neg : Bool)
  | nan
  deriving DecidableEq

namespace PyFloat

def eq : PyFloat → PyFloat → Bool
  | fin a, fin b => decide (a = b)
  | inf s, inf t => s == t
  | _, _ => false

def lt : PyFloat → PyFloat → Bool
  | fin a, fin b => decide (a < b)
  | inf true, fin _ => true
  | fin _, inf false => true
  | inf true, inf false => true
  | _, _ => false

def le (a b : PyFloat) : Bool := lt a b || eq a b

theorem eq_self {x : PyFloat} (number : x ≠ nan) : eq x x = true := by
  cases x with
  | fin q => exact decide_eq_true rfl
  | inf neg => exact beq_self_eq_true neg
  | nan => exact absurd rfl number

/-- Equal numbers are one number: only NaN differs from itself. -/
theorem eq_of_eq {a b : PyFloat} (h : eq a b = true) : a = b := by
  cases a <;> cases b <;> simp_all [eq]

end PyFloat

/-- The integer nearest to `n / d`, ties to even. -/
def roundHalfEven (n d : Nat) : Nat :=
  if 2 * (n % d) < d then n / d
  else if d < 2 * (n % d) then n / d + 1
  else n / d + n / d % 2

/-- The double nearest to a rational, ties to even, with gradual underflow. -/
def roundDouble (q : ℚ) : PyFloat :=
  let n := q.num.natAbs
  let d := q.den
  let guess : Int := n.log2 - d.log2
  let small : Bool := if 0 ≤ guess then n < d * 2 ^ guess.toNat else n * 2 ^ (-guess).toNat < d
  -- the exponent of the last place of the significand
  let place : Int := max ((if small then guess - 1 else guess) - 52) (-1074)
  let units := if 0 ≤ place then roundHalfEven n (d * 2 ^ place.toNat)
    else roundHalfEven (n * 2 ^ (-place).toNat) d
  let value : ℚ := if 0 ≤ place then (units * 2 ^ place.toNat : Nat) else mkRat units (2 ^ (-place).toNat)
  if ((2 ^ 1024 : Nat) : ℚ) ≤ value then .inf (decide (q < 0))
  else .fin (if q < 0 then -value else value)

/-- `float(n)`; `none` is the `OverflowError` of an integer beyond the doubles. -/
def floatOfInt (n : Int) : Option PyFloat :=
  match roundDouble n with
  | .fin q => some (.fin q)
  | _ => none

/-- `x * 0.5`. -/
def PyFloat.half : PyFloat → PyFloat
  | .fin q => roundDouble (q / 2)
  | x => x

/-! ### Decimal text -/

def natOfDigits (ds : List Nat) : Nat := ds.foldl (fun n d => 10 * n + d) 0

def natText (n : Nat) : Str := (toString n).toList

def intText (n : Int) : Str := (toString n).toList

/-- `f"{q:.{places}f}"`. -/
def fixedText (places : Nat) (q : ℚ) : Str :=
  let scaled := roundHalfEven (q.num.natAbs * 10 ^ places) q.den
  let frac := natText (scaled % 10 ^ places)
  (if q < 0 then ['-'] else []) ++ natText (scaled / 10 ^ places) ++
    if places = 0 then [] else '.' :: (List.replicate (places - frac.length) '0' ++ frac)

section

variable [PyText]

open PyText

def startsDigit : Str → Bool
  | [] => false
  | c :: _ => (decimal c).isSome

/-- The digits at the start of the string, and what follows them. -/
def takeDigits : Str → List Nat × Str
  | [] => ([], [])
  | c :: cs =>
    match decimal c with
    | some d => (d :: (takeDigits cs).1, (takeDigits cs).2)
    | none => ([], c :: cs)

/-- As `takeDigits`, with single underscores allowed between two digits. -/
def takeGrouped : Str → List Nat × Str
  | [] => ([], [])
  | c :: cs =>
    match decimal c with
    | some d => (d :: (takeGrouped cs).1, (takeGrouped cs).2)
    | none => if c == '_' && startsDigit cs then takeGrouped cs else ([], c :: cs)

def digitPart (s : Str) : List Nat × Str := if startsDigit s then takeGrouped s else ([], s)

def takeSign : Str → Bool × Str
  | '-' :: s => (true, s)
  | '+' :: s => (false, s)
  | s => (false, s)

/-- The decimal exponent after the significand: absent, or an `e` with a signed digit part. -/
def exponentPart : Str → Option Int
  | [] => some 0
  | c :: s =>
    if c == 'e' || c == 'E' then
      let (neg, s) := takeSign s
      let (ds, rest) := digitPart s
      if ds ≠ [] ∧ rest = [] then some (if neg then -(natOfDigits ds : Int) else natOfDigits ds) else none
    else none

def scaleTen (n : Nat) (e : Int) : ℚ := if 0 ≤ e then (n * 10 ^ e.toNat : Nat) else mkRat n (10 ^ (-e).toNat)

/-- The double of a decimal numeral with digits before and after the point. -/
def decimalValue (neg : Bool) (whole frac : List Nat) (e : Int) : PyFloat :=
  let magnitude := scaleTen (natOfDigits (whole ++ frac)) (e - frac.length)
  roundDouble (if neg then -magnitude else magnitude)

/-- `float(s)`; `none` is its `ValueError`. -/
def parseFloat (s : Str) : Option PyFloat :=
  let (neg, s) := takeSign (strip s)
  let word := s.map Char.toLower
  if word = "inf".toList ∨ word = "infinity".toList then some (.inf neg)
  else if word = "nan".toList then some .nan
  else
    let (whole, rest) := digitPart s
    let (frac, rest) := match rest with
      | '.' :: rest => digitPart rest
      | rest => ([], rest)
    if whole = [] ∧ frac = [] then none else (exponentPart rest).map (decimalValue neg whole frac)

end

example : @parseFloat PyText.ascii " -1_0.25e1\t".toList = some (.fin (-205 / 2)) := by decide +kernel

example : @parseFloat PyText.ascii "1e400".toList = some (.inf false) := by decide +kernel

end Xair
