import LeanCtx.Python.Text

/-! POSIX paths as texts: `os.path.normpath`, `join`, `commonpath` and `relpath`. Paths that must be absolute
    are, so the working directory plays no part. -/

namespace LeanCtx.Path

/-- The parts between slashes. -/
def split : Str → List Str
  | [] => [[]]
  | c :: r =>
    if c = 47 then [] :: split r
    else match split r with
      | [] => [[c]]
      | p :: l => (c :: p) :: l

/-- Parts joined by slashes. -/
def joinParts : List Str → Str
  | [] => []
  | [p] => p
  | p :: q :: l => p ++ 47 :: joinParts (q :: l)

def isAbs (p : Str) : Bool := p.head? == some 47

/-- The slashes that start a path in its normal form: POSIX keeps two of them, and one for any other number. -/
def initialSlashes (p : Str) : Str :=
  if isAbs p then
    if decide ([47, 47] <+: p) && !decide ([47, 47, 47] <+: p) then [47, 47] else [47]
  else []

/-- The parts of a normal form, the last one first, from the parts so far. -/
def normParts (abs : Bool) : List Str → List Str → List Str
  | acc, [] => acc
  | acc, c :: l =>
    if c = [] ∨ c = [46] then normParts abs acc l
    else if c ≠ [46, 46] ∨ (!abs ∧ acc = []) ∨ acc.head? = some [46, 46] then normParts abs (c :: acc) l
    else normParts abs acc.tail l

/-- `os.path.normpath(path)`. -/
def normpath (p : Str) : Str :=
  let body := initialSlashes p ++ joinParts (normParts (isAbs p) [] (split p)).reverse
  if body = [] then [46] else body

/-- `os.path.join(a, b)`. -/
def join (a b : Str) : Str :=
  if isAbs b then b else if a = [] ∨ a.getLast? = some 47 then a ++ b else a ++ 47 :: b

/-- The parts of a path that name something. -/
def names (p : Str) : List Str := (split p).filter fun c => !c.isEmpty && c != [46]

/-- The longest common prefix of two lists. -/
def commonPrefix : List Str → List Str → List Str
  | a :: l, b :: m => if a = b then a :: commonPrefix l m else []
  | _, _ => []

/-- `os.path.commonpath((p, q))` of absolute paths. -/
def commonpath (p q : Str) : Str := 47 :: joinParts (commonPrefix (names p) (names q))

/-- `os.path.relpath(path, start)` of absolute paths. -/
def relpath (p start : Str) : Str :=
  let starts := (split (normpath start)).filter fun c => !c.isEmpty
  let parts := (split (normpath p)).filter fun c => !c.isEmpty
  let i := (commonPrefix starts parts).length
  let rel := List.replicate (starts.length - i) [46, 46] ++ parts.drop i
  if rel = [] then [46] else joinParts rel

end LeanCtx.Path
