import LeanCtx.Json.Grammar
import LeanCtx.Enterprise.Planning

/-! `Json.parse` of the Java package. A Java string is kept by its code points, an unpaired surrogate as itself. -/

namespace LeanCtx.Java
open Json (Piece)
open PyFloat (Literal)

/-- `Character.digit(c, 10)`: a digit of any script counts, as long as one 16-bit unit holds it. -/
def digit (c : Nat) : Option Nat := if c < 0x10000 then Unicode.decimal? c else none

/-- A value that the parser gives: `BigInteger` and `BigDecimal` are kept by what they hold, a map by its entries in their order. -/
inductive Value
  | null
  | bool (b : Bool)
  | integer (n : Int)
  | decimal (unscaled : Int) (scale : Int)
  | str (s : Str)
  | list (items : List Value)
  | map (entries : List (Str × Value))

/-- What `Json.parse` throws: an `EngineProtocolError` with its message, or an error of the platform that runs out of its stack, of
    memory or of the range of `BigInteger`. -/
inductive Thrown
  | protocol (message : Str)
  | platform
deriving DecidableEq

/-! ### Numbers -/

/-- `Integer.MAX_VALUE`. -/
def maxInt : Int := 2147483647

/-- `new BigInteger(number)` or `new BigDecimal(number)` of a scanned number, none where it throws `NumberFormatException`: an exponent or
    a scale that is no 32-bit integer. -/
def number (l : Literal) : Option Value :=
  let sign : Int := if l.neg then -1 else 1
  let fraction := l.fraction.getD []
  if l.isFloat = true then
    let exponent := l.exponent.getD 0
    let scale := fraction.length - exponent
    if (-maxInt ≤ exponent ∧ exponent ≤ maxInt) ∧ -maxInt - 1 ≤ scale ∧ scale ≤ maxInt then
      some (.decimal (sign * ofDigits (l.whole ++ fraction)) scale)
    else none
  else some (.integer (sign * ofDigits l.whole))

namespace Parser

/-- `fail(message)`, of which the text is given here. -/
abbrev fail {α : Type} (label : Str) (message : Str) : Except Str α := .error (Str.lit "invalid " ++ label ++ Str.lit ": " ++ message)

/-- The digits at the head of a text, and the rest. -/
def takeDigits : Str → List Nat × Str
  | [] => ([], [])
  | c :: r =>
    match digit c with
    | some d => (d :: (takeDigits r).1, (takeDigits r).2)
    | none => ([], c :: r)

/-- Whether a digit stands at the head of a text. -/
def startsDigit (s : Str) : Bool := (s.head?.bind digit).isSome

def takeSign : Str → Bool × Str
  | 45 :: r => (true, r)
  | s => (false, s)

variable (label : Str)

def parseWhole : Str → Except Str (List Nat × Str)
  | [] => fail label "invalid number"
  | c :: r =>
    if c = 48 then if startsDigit r = true then fail label "leading zero in number" else .ok ([0], r)
    else if 49 ≤ c ∧ c ≤ 57 then .ok ((c - 48) :: (takeDigits r).1, (takeDigits r).2)
    else fail label "invalid number"

def parseFraction : Str → Except Str (Option (List Nat) × Str)
  | 46 :: r =>
    if (takeDigits r).1 = [] then fail label "invalid number fraction" else .ok (some (takeDigits r).1, (takeDigits r).2)
  | s => .ok (none, s)

def takeExponentSign : Str → Int × Str
  | 43 :: r => (1, r)
  | 45 :: r => (-1, r)
  | s => (1, s)

def parseExponent : Str → Except Str (Option Int × Str)
  | [] => .ok (none, [])
  | c :: r =>
    if c = 101 ∨ c = 69 then
      let (sign, t) := takeExponentSign r
      if (takeDigits t).1 = [] then fail label "invalid number exponent"
      else .ok (some (sign * ofDigits (takeDigits t).1), (takeDigits t).2)
    else .ok (none, c :: r)

/-- `parseNumber()`. -/
def parseNumber (s : Str) : Except Str (Value × Str) := do
  let (whole, t) ← parseWhole label (takeSign s).2
  let (fraction, u) ← parseFraction label t
  let (exponent, r) ← parseExponent label u
  match number ⟨(takeSign s).1, whole, fraction, exponent⟩ with
  | some v => .ok (v, r)
  | none => fail label "invalid number"

/-! ### Strings -/

/-- The message for what is no escape after its backslash. -/
def escapeMessage (r : Str) : Str :=
  if r = [] then "unterminated string escape" else if r.head? = some 117 then "invalid unicode escape" else "invalid string escape"

/-- The characters of a string after its opening quote. The fuel bounds the loop by the length of the text. -/
def parseChars : Nat → Str → Except Str (List Piece × Str)
  | 0, _ => fail label "unterminated string"
  | _ + 1, [] => fail label "unterminated string"
  | n + 1, c :: r =>
    if c = 34 then .ok ([], r)
    else if c = 92 then
      match Json.Raw.scanEscape r with
      | some (p, t) => do
        let (l, r) ← parseChars n t
        return (p :: l, r)
      | none => fail label (escapeMessage r)
    else if c < 32 then fail label "control character in string"
    else do
      let (l, t) ← parseChars n r
      return (.char c :: l, t)

/-- What a string literal reads as, none where a surrogate stands alone. -/
def stringOf (l : List Piece) : Option Str := if (Json.Raw.joinEscapes l).all Str.isScalar = true then some (Json.Raw.joinEscapes l) else none

/-- `parseString()` after the opening quote. -/
def parseString (s : Str) : Except Str (Str × Str) := do
  let (l, r) ← parseChars label (s.length + 1) s
  match stringOf l with
  | some t => return (t, r)
  | none => fail label (label ++ Str.lit " string is not valid UTF-8")

/-! ### Values -/

/-- `take(literal, value)` of the rest of a literal. -/
def take (rest : Str) (v : Value) (s : Str) : Except Str (Value × Str) :=
  if rest <+: s then .ok (v, s.drop rest.length) else fail label "invalid value"

mutual
/-- `parseValue(depth)`, with the default bound of the depth, which no array of bytes is long enough to pass. Two steps of fuel are enough
    for each character. -/
def parseValue : Nat → Str → Except Str (Value × Str)
  | 0, _ => fail label "unexpected end of input"
  | _ + 1, [] => fail label "unexpected end of input"
  | n + 1, c :: r =>
    if c = 123 then
      match Json.skipSpace r with
      | 125 :: t => .ok (.map [], t)
      | t => do
        let (f, t) ← parseFields n [] t
        return (.map f, t)
    else if c = 91 then
      match Json.skipSpace r with
      | 93 :: t => .ok (.list [], t)
      | t => do
        let (l, t) ← parseItems n t
        return (.list l, t)
    else if c = 34 then do
      let (s, t) ← parseString label r
      return (.str s, t)
    else if c = 116 then take label "rue" (.bool true) r
    else if c = 102 then take label "alse" (.bool false) r
    else if c = 110 then take label "ull" .null r
    else if c = 45 ∨ (digit c).isSome then parseNumber label (c :: r)
    else fail label "invalid value"

/-- The loop of `parseArray(depth)`. -/
def parseItems : Nat → Str → Except Str (List Value × Str)
  | 0, _ => fail label "unexpected end of input"
  | n + 1, s => do
    let (v, t) ← parseValue n s
    match Json.skipSpace t with
    | 93 :: r => return ([v], r)
    | 44 :: u => do
      let (l, r) ← parseItems n (Json.skipSpace u)
      return (v :: l, r)
    | _ => fail label "array missing comma"

/-- The loop of `parseObject(depth)`, given the keys that were read. -/
def parseFields : Nat → List Str → Str → Except Str (List (Str × Value) × Str)
  | 0, _, _ => fail label "unexpected end of input"
  | _ + 1, _, [] => fail label "object key must be a string"
  | n + 1, seen, c :: s =>
    if c = 34 then do
      let (k, t) ← parseString label s
      if k ∈ seen then fail label (Str.lit "duplicate key: " ++ k)
      else match Json.skipSpace t with
        | 58 :: u => do
          let (v, w) ← parseValue n (Json.skipSpace u)
          match Json.skipSpace w with
          | 125 :: r => return ([(k, v)], r)
          | 44 :: x => do
            let (f, r) ← parseFields n (k :: seen) (Json.skipSpace x)
            return ((k, v) :: f, r)
          | _ => fail label "object missing comma"
        | _ => fail label "object key missing colon"
    else fail label "object key must be a string"
end

/-- `parse()`. -/
def parse (s : Str) : Except Str Value := do
  let (v, r) ← parseValue label (2 * s.length + 1) (Json.skipSpace s)
  if Json.skipSpace r = [] then return v else fail label "trailing data"

end Parser

/-- `decodeUtf8(data)`, none for a `CharacterCodingException`. -/
def decodeUtf8 (data : Bytes) : Option Str := (Str.decodeUtf8? data).filter fun s => s.all Str.isScalar

/-- `Json.parse(data, label)`. `exhausted` says that the platform runs out of something on this input. -/
def parse (exhausted : Bool) (label : Str) (data : Bytes) : Except Thrown Value :=
  if exhausted = true then .error .platform
  else match decodeUtf8 data with
    | none => .error (.protocol (Str.lit "invalid " ++ label))
    | some s =>
      match Parser.parse label s with
      | .error m => .error (.protocol m)
      | .ok (.map f) => .ok (.map f)
      | .ok _ => .error (.protocol (label ++ Str.lit " must be a JSON object"))

end LeanCtx.Java
