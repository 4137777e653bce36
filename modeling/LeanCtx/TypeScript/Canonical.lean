import LeanCtx.Json.Decoding
import LeanCtx.Json.Raw
import LeanCtx.Machine.Ranked

/-! Canonical JSON of the TypeScript package beside that of the Python package. The package sorts the keys of an object and puts them
    into a new object in that order. A JavaScript object lists its integer indices first, in ascending order, whatever the order
    they were put in, so that the bytes are those of Python exactly where that is the sorted order already (`sameBytes_iff`).
    A string is taken as its code points. -/

namespace LeanCtx.TypeScript
open Json PyFloat

/-! ### Own properties -/

/-- The number of a key that is an integer index, up to `limit`. -/
def index? (limit : Nat) (k : Str) : Option Nat :=
  let n := ofDigits (k.map (· - 48))
  if k = natText n ∧ n ≤ limit then some n else none

/-- The properties of an object as JavaScript lists them, from the order they were created in. -/
def ownFields (limit : Nat) (f : List (Str × Json)) : List (Str × Json) := Ranked.front (fun p => index? limit p.1) f

/-! ### Reading -/

/-- How the parser reads: every number is a float, and the members of an object are created in their order. -/
def typescript : Raw.Dialect where
  string s :=
    let t := joinUnits (s.map Piece.code)
    if t.all Str.isScalar then some t else none
  number l := if isFinite (ofLiteral l) then some (.float (ofLiteral l)) else none
  object f := if (f.map (·.1)).Nodup then some (.obj f) else none

/-- `strictJsonLoads(text)`, none where it throws. -/
def strictJsonLoads (t : Str) : Option Json :=
  if t.all Str.isScalar then
    (Raw.scan t).bind fun a => (a.read typescript).bind fun v => match v with
      | .obj f => some (.obj f)
      | _ => none
  else none

/-! ### Writing -/

/-- `Number.MAX_SAFE_INTEGER`. -/
def maxSafe : Nat := 2 ^ 53 - 1

def negativeZero : PyFloat := .finite true 0 (-1074) (by decide)

/-- A number that is a safe integer and no negative zero. -/
def safeInteger? (x : PyFloat) : Option Int :=
  x.toInt?.bind fun n => if n.natAbs ≤ maxSafe ∧ x ≠ negativeZero then some n else none

mutual
/-- `canonicalValue(value)`, none where it throws. The properties are created in the order of their keys. -/
def canonicalValue : Json → Option Json
  | .null => some .null
  | .bool b => some (.bool b)
  | .str s => some (.str s)
  | .int n => if n.natAbs ≤ maxSafe then some (.int n) else none
  | .float x => (safeInteger? x).map .int
  | .arr l => (canonicalItems l).map .arr
  | .obj f => (canonicalFields f).map fun g => .obj (sortFields g)

def canonicalItems : List Json → Option (List Json)
  | [] => some []
  | v :: l => (canonicalValue v).bind fun w => (canonicalItems l).map (w :: ·)

def canonicalFields : List (Str × Json) → Option (List (Str × Json))
  | [] => some []
  | (k, v) :: f => if k.all Str.isScalar then (canonicalValue v).bind fun w => (canonicalFields f).map ((k, w) :: ·) else none
end

mutual
/-- The value with the properties of every object as `JSON.stringify` lists them. -/
def listed (limit : Nat) : Json → Json
  | .arr l => .arr (listedItems limit l)
  | .obj f => .obj (ownFields limit (listedFields limit f))
  | .null => .null
  | .bool b => .bool b
  | .int n => .int n
  | .float x => .float x
  | .str s => .str s

def listedItems (limit : Nat) : List Json → List Json
  | [] => []
  | v :: l => listed limit v :: listedItems limit l

def listedFields (limit : Nat) : List (Str × Json) → List (Str × Json)
  | [] => []
  | (k, v) :: f => (k, listed limit v) :: listedFields limit f
end

theorem listed_arr (limit : Nat) (l : List Json) : listed limit (.arr l) = .arr (listedItems limit l) := rfl

theorem listed_obj (limit : Nat) (f : List (Str × Json)) :
    listed limit (.obj f) = .obj (ownFields limit (listedFields limit f)) := rfl

theorem listedItems_cons (limit : Nat) (v : Json) (l : List Json) :
    listedItems limit (v :: l) = listed limit v :: listedItems limit l := rfl

theorem listedFields_cons (limit : Nat) (p : Str × Json) (f : List (Str × Json)) :
    listedFields limit (p :: f) = (p.1, listed limit p.2) :: listedFields limit f := rfl

/-- `canonicalBytes(value)`, none where it throws. -/
def canonicalBytes (limit : Nat) (v : Json) : Option Bytes :=
  (canonicalValue v).bind fun w => (text? (listed limit w)).bind Str.utf8?

/-- `canonicalBytes(strictJsonLoads(text))`. -/
def documentBytes (limit : Nat) (t : Str) : Option Bytes := (strictJsonLoads t).bind (canonicalBytes limit)

end LeanCtx.TypeScript

namespace LeanCtx.Json

/-- `strict_json_loads(text)`, none where the code raises. -/
def strictTextLoads? (t : Str) : Option Json :=
  (parse? t).bind fun v => match v with
    | .obj f => some (.obj f)
    | _ => none

/-- `canonical_bytes(strict_json_loads(text))`. -/
def documentBytes (t : Str) : Option Bytes := (strictTextLoads? t).bind canonicalBytes?

end LeanCtx.Json

namespace LeanCtx.TypeScript
open Json PyFloat

/-! ### Portable documents -/

/-- A literal that is a plain integer of magnitude at most `2^53 - 1`. -/
def isPlainInteger (l : Literal) : Bool :=
  !l.isFloat && decide (l.whole = decimal (ofDigits l.whole)) && decide (ofDigits l.whole ≤ maxSafe) &&
    !(l.neg && decide (ofDigits l.whole = 0))

/-- The strings of the document are valid Unicode, and its literals plain integers. -/
def isPortable (a : Raw) : Bool :=
  a.every (fun s => s.all Str.isScalar) isPlainInteger fun ks => ks.all fun k => k.all Str.isScalar

/-- No object of the document names a key twice. -/
def isUnique (a : Raw) : Bool := a.every (fun _ => true) (fun _ => true) fun ks => ks.Nodup

/-- In no object of the document an integer index comes after a key that is none, or that is a larger one, in code point order. -/
def isAligned (limit : Nat) (a : Raw) : Bool :=
  a.every (fun _ => true) (fun _ => true) fun ks => ∀ j ∈ ks, ∀ k ∈ ks, j < k → Ranked.Ahead (index? limit) j k

end LeanCtx.TypeScript
