import LeanCtx.Python.Text

/-! Python numbers as text: decimal integers, and the floats that a JSON document can hold. A float is a
    binary64 value; its text is the shortest decimal that reads back as the same value. -/

namespace LeanCtx

/-- The code points of decimal digits. -/
def digitsText (ds : List Nat) : Str := ds.map (48 + ·)

/-- `str(n)` of a natural number. -/
def natText (n : Nat) : Str := if n = 0 then [48] else digitsText (Nat.digits 10 n).reverse

/-- `str(n)` of an integer. -/
def intText : Int → Str
  | .ofNat n => natText n
  | .negSucc n => 45 :: natText (n + 1)

/-- `f"{n:0wd}"`: the text of `n`, filled with zeros to `w` digits. -/
def paddedText (w n : Nat) : Str := List.replicate (w - (natText n).length) 48 ++ natText n

/-- The natural number that decimal digits spell. -/
def ofDigits (ds : List Nat) : Nat := ds.foldl (fun n d => n * 10 + d) 0

/-- A decimal digit. -/
def isDigit (c : Nat) : Bool := 48 ≤ c && c ≤ 57

/-- The digits at the head of a text, as numbers, and the rest. -/
def spanDigits : Str → List Nat × Str
  | [] => ([], [])
  | c :: r => if isDigit c then ((c - 48) :: (spanDigits r).1, (spanDigits r).2) else ([], c :: r)

/-! ### Floats -/

/-- The significand and exponent of a finite binary64 value. -/
def isBinary64 (mant : Nat) (exp : Int) : Bool :=
  mant < 2 ^ 53 && -1074 ≤ exp && exp ≤ 971 && (2 ^ 52 ≤ mant || exp == -1074)

/-- A Python `float` other than a NaN, which JSON text cannot spell: `±mant·2^exp`, or an infinity. -/
inductive PyFloat
  | finite (neg : Bool) (mant : Nat) (exp : Int) (valid : isBinary64 mant exp = true)
  | inf (neg : Bool)
deriving DecidableEq

namespace PyFloat

/-- `num / den`, rounded half to even. -/
def roundHalfEven (num den : Nat) : Nat :=
  let q := num / den
  let r := num % den
  if 2 * r < den then q else if den < 2 * r then q + 1 else if q % 2 = 0 then q else q + 1

/-- `num·2^(-k) / den` as a fraction of natural numbers. -/
def shift (num den : Nat) (k : Int) : Nat × Nat :=
  if 0 ≤ k then (num, den * 2 ^ k.toNat) else (num * 2 ^ (-k).toNat, den)

/-- The float nearest to `num / den`. -/
def ofFraction (neg : Bool) (num den : Nat) : PyFloat :=
  let k := (Nat.log2 num : Int) - Nat.log2 den - 52
  let k := if (shift num den k).1 < (shift num den k).2 * 2 ^ 52 then k - 1 else k
  let k := if num = 0 then -1074 else max k (-1074)
  let m := roundHalfEven (shift num den k).1 (shift num den k).2
  let (m, k) := if m = 2 ^ 53 then (2 ^ 52, k + 1) else (m, k)
  if h : isBinary64 m k = true then .finite neg m k h else .inf neg

/-- The float nearest to `±digits·10^exp`. -/
def ofDecimal (neg : Bool) (digits : Nat) (exp : Int) : PyFloat :=
  if 0 ≤ exp then ofFraction neg (digits * 10 ^ exp.toNat) 1 else ofFraction neg digits (10 ^ (-exp).toNat)

/-- A number literal: its sign, integer digits, fraction digits and exponent. -/
structure Literal where
  neg : Bool
  whole : List Nat
  fraction : Option (List Nat)
  exponent : Option Int
deriving DecidableEq

/-- A literal with a fraction or an exponent reads as a float. -/
def Literal.isFloat (l : Literal) : Bool := l.fraction.isSome || l.exponent.isSome

/-- `float(text)` of a literal. -/
def ofLiteral (l : Literal) : PyFloat :=
  let frac := l.fraction.getD []
  ofDecimal l.neg (ofDigits (l.whole ++ frac)) (l.exponent.getD 0 - frac.length)

/-- The sign at the head of a number. -/
def scanSign : Str → Bool × Str
  | 45 :: r => (true, r)
  | s => (false, s)

/-- The integer digits of a number: a lone zero, or digits that start with another one. -/
def scanWhole : Str → Option (List Nat × Str)
  | [] => none
  | c :: r => if c = 48 then some ([0], r) else if isDigit c then some (spanDigits (c :: r)) else none

/-- The fraction of a number, if a point and a digit follow. -/
def scanFraction : Str → Option (List Nat) × Str
  | [] => (none, [])
  | c :: r => if c = 46 ∧ (spanDigits r).1 ≠ [] then (some (spanDigits r).1, (spanDigits r).2) else (none, c :: r)

/-- The sign of an exponent. -/
def scanExponentSign : Str → Int × Str
  | [] => (1, [])
  | c :: r => if c = 45 then (-1, r) else if c = 43 then (1, r) else (1, c :: r)

/-- The exponent of a number, if a letter `e` and a digit follow. -/
def scanExponent : Str → Option Int × Str
  | [] => (none, [])
  | c :: r =>
    let (sign, t) := scanExponentSign r
    if (c = 101 ∨ c = 69) ∧ (spanDigits t).1 ≠ [] then (some (sign * ofDigits (spanDigits t).1), (spanDigits t).2)
    else (none, c :: r)

/-- The number literal at the head of a text, as long as it goes, and the rest. -/
def scanLiteral (s : Str) : Option (Literal × Str) :=
  let (neg, s) := scanSign s
  (scanWhole s).map fun (whole, r) =>
    (⟨neg, whole, (scanFraction r).1, (scanExponent (scanFraction r).2).1⟩, (scanExponent (scanFraction r).2).2)

/-- The integer a float equals, if it equals one. -/
def toInt? : PyFloat → Option Int
  | .inf _ => none
  | .finite neg m e _ =>
    let sign : Int := if neg then -1 else 1
    if 0 ≤ e then some (sign * (m * 2 ^ e.toNat : Nat))
    else if m % 2 ^ (-e).toNat = 0 then some (sign * (m / 2 ^ (-e).toNat : Nat)) else none

/-- The digits of `n` without trailing zeros, and how many zeros went. -/
def stripZeros (n : Nat) : Nat → Nat × Nat
  | 0 => (n, 0)
  | fuel + 1 => if n ≠ 0 ∧ n % 10 = 0 then let (m, k) := stripZeros (n / 10) fuel; (m, k + 1) else (n, 0)

/-- The text of `digits·10^exp`, laid out as `repr` lays out a float: positional for exponents from -4 to
    15, and scientific elsewhere. -/
def layout (neg : Bool) (digits : Nat) (exp : Int) : Str :=
  let ds := natText digits
  let point := (ds.length : Int) + exp
  let body : Str :=
    if -4 < point ∧ point ≤ 16 then
      if point ≤ 0 then [48, 46] ++ List.replicate (-point).toNat 48 ++ ds
      else if (ds.length : Int) ≤ point then ds ++ List.replicate (point.toNat - ds.length) 48 ++ [46, 48]
      else ds.take point.toNat ++ [46] ++ ds.drop point.toNat
    else
      let e := point - 1
      let frac : Str := if ds.length ≤ 1 then [] else 46 :: ds.drop 1
      ds.take 1 ++ frac ++ [101] ++ [if 0 ≤ e then 43 else 45] ++ paddedText 2 e.natAbs
  if neg then 45 :: body else body

/-- The decimal texts of `n` significant digits on either side of a float, the nearer one first. -/
def candidates (neg : Bool) (num den n : Nat) : List Str :=
  -- `10^s` scales the value to `n` digits before the point
  let size : Int := ((natText (num / den)).length : Int)
  let lead : Int := if num / den = 0 then -((natText (den / num)).length : Int) else size
  ((List.range 3).map fun i =>
    let s : Int := n - lead - 1 + i
    let (a, b) := if 0 ≤ s then (num * 10 ^ s.toNat, den) else (num, den * 10 ^ (-s).toNat)
    let nearest := roundHalfEven a b
    let other := if nearest = a / b then a / b + 1 else a / b
    [nearest, other].filterMap fun d =>
      let (d', k) := stripZeros d 20
      if (natText d').length ≤ n ∧ d ≠ 0 then some (layout neg d' (k - s)) else none).flatten

/-- The texts among which `repr` chooses, shortest first. -/
def texts : PyFloat → List Str
  | .inf _ => []
  | .finite neg m e _ =>
    if m = 0 then [if neg then "-0.0" else "0.0"]
    else
      let (num, den) := if 0 ≤ e then (m * 2 ^ e.toNat, 1) else (m, 2 ^ (-e).toNat)
      ((List.range 17).map fun i => candidates neg num den (i + 1)).flatten

/-- A text reads back as the float `x`, all of it. -/
def reads (x : PyFloat) (t : Str) : Bool :=
  match scanLiteral t with
  | some (l, []) => l.isFloat && ofLiteral l == x
  | _ => false

/-- `float.__repr__`: the shortest text that reads back as the same float. An infinity has no JSON text. -/
def repr? (x : PyFloat) : Option Str := x.texts.find? x.reads

end PyFloat
end LeanCtx
