import LeanCtx.Json.Object

/-! The JSON text of a value and the value of a JSON text, as Python's `json` module writes and reads them:
    `json.dumps` with `ensure_ascii=False`, `allow_nan=False`, `sort_keys=True` and no spaces, and
    `json.loads` of bytes with duplicate keys and named constants refused. -/

namespace LeanCtx.Json

/-- The decimal digits that Python converts between an `int` and a `str`. -/
def maxIntDigits : Nat := 4300

/-! ### Writing -/

/-- A lowercase hexadecimal digit. -/
def hexDigit (n : Nat) : Nat := if n < 10 then 48 + n else 87 + n

/-- A character inside a JSON string, non-ASCII characters as they are. -/
def escape (c : Nat) : Str :=
  if c = 34 then [92, 34]
  else if c = 92 then [92, 92]
  else if c = 10 then [92, 110]
  else if c = 13 then [92, 114]
  else if c = 9 then [92, 116]
  else if c = 12 then [92, 102]
  else if c = 8 then [92, 98]
  else if c < 32 then [92, 117, 48, 48, hexDigit (c / 16), hexDigit (c % 16)]
  else [c]

def quote (s : Str) : Str := 34 :: s.flatMap escape ++ [34]

/-- Texts separated by commas. -/
def joinComma : List Str → Str
  | [] => []
  | [t] => t
  | t :: u :: l => t ++ 44 :: joinComma (u :: l)

mutual
/-- The text of a value with its keys in order. No text exists for an infinity or an over-long integer. -/
def text? : Json → Option Str
  | .null => some "null"
  | .bool b => some (if b then "true" else "false")
  | .int n => if (natText n.natAbs).length ≤ maxIntDigits then some (intText n) else none
  | .float x => x.repr?
  | .str s => some (quote s)
  | .arr l => (itemTexts? l).map fun ts => 91 :: joinComma ts ++ [93]
  | .obj f => (fieldTexts? f).map fun ts => 123 :: joinComma ts ++ [125]

def itemTexts? : List Json → Option (List Str)
  | [] => some []
  | v :: l => (text? v).bind fun t => (itemTexts? l).map (t :: ·)

def fieldTexts? : List (Str × Json) → Option (List Str)
  | [] => some []
  | (k, v) :: f => (text? v).bind fun t => (fieldTexts? f).map ((quote k ++ 58 :: t) :: ·)
end

/-- `canonical_bytes(value)`: the UTF-8 bytes of the canonical text, none where the code raises. -/
def canonicalBytes? (v : Json) : Option Bytes := v.plain.text?.bind Str.utf8?

/-! ### Reading -/

def isSpace (c : Nat) : Bool := c == 32 || c == 9 || c == 10 || c == 13

def skipSpace : Str → Str := List.dropWhile isSpace

def hexValue? (c : Nat) : Option Nat :=
  if 48 ≤ c ∧ c ≤ 57 then some (c - 48)
  else if 97 ≤ c ∧ c ≤ 102 then some (c - 87)
  else if 65 ≤ c ∧ c ≤ 70 then some (c - 55)
  else none

def scanHex4 : Str → Option (Nat × Str)
  | a :: b :: c :: d :: r => do
    let a ← hexValue? a
    let b ← hexValue? b
    let c ← hexValue? c
    let d ← hexValue? d
    return (((a * 16 + b) * 16 + c) * 16 + d, r)
  | _ => none

/-- The character that an escape after its backslash denotes. Two escaped halves of a surrogate pair denote
    one character, and a half that stands alone denotes itself. -/
def scanEscape : Str → Option (Nat × Str)
  | [] => none
  | e :: r =>
    if e = 34 ∨ e = 92 ∨ e = 47 then some (e, r)
    else if e = 98 then some (8, r)
    else if e = 102 then some (12, r)
    else if e = 110 then some (10, r)
    else if e = 114 then some (13, r)
    else if e = 116 then some (9, r)
    else if e = 117 then
      match scanHex4 r with
      | none => none
      | some (u, r) =>
        if 0xD800 ≤ u ∧ u ≤ 0xDBFF then
          match r with
          | 92 :: 117 :: q =>
            match scanHex4 q with
            | none => none
            | some (w, q) =>
              if 0xDC00 ≤ w ∧ w ≤ 0xDFFF then some (0x10000 + (u - 0xD800) * 0x400 + (w - 0xDC00), q) else some (u, r)
          | _ => some (u, r)
        else some (u, r)
    else none

/-- A string after its opening quote, up to and past the closing one. The fuel bounds its length. -/
def scanString : Nat → Str → Option (Str × Str)
  | 0, _ => none
  | _ + 1, [] => none
  | n + 1, c :: r =>
    if c = 34 then some ([], r)
    else if c = 92 then (scanEscape r).bind fun (d, r) => (scanString n r).map fun (s, r) => (d :: s, r)
    else if c < 32 then none
    else (scanString n r).map fun (s, r) => (c :: s, r)

/-- A number: an integer, or a float where a fraction or an exponent follows. -/
def scanNumber (s : Str) : Option (Json × Str) :=
  (PyFloat.scanLiteral s).bind fun (l, r) =>
    if l.isFloat then some (.float (PyFloat.ofLiteral l), r)
    else if l.whole.length ≤ maxIntDigits then
      some (.int (if l.neg then -(ofDigits l.whole : Int) else ofDigits l.whole), r)
    else none

def dropPrefix? (p s : Str) : Option Str := if p <+: s then some (s.drop p.length) else none

mutual
/-- The value at the head of a text, and the rest. The fuel bounds the length of the value's text. -/
def parseValue : Nat → Str → Option (Json × Str)
  | 0, _ => none
  | _ + 1, [] => none
  | n + 1, c :: r =>
    if c = 34 then (scanString (r.length + 1) r).map fun (s, r) => (.str s, r)
    else if c = 91 then
      if (skipSpace r).head? = some 93 then some (.arr [], (skipSpace r).tail)
      else (parseItems n (skipSpace r)).map fun (l, r) => (.arr l, r)
    else if c = 123 then
      if (skipSpace r).head? = some 125 then some (.obj [], (skipSpace r).tail)
      else (parseFields n (skipSpace r)).bind fun (f, r) =>
        if (f.map (·.1)).Nodup then some (.obj (sortFields f), r) else none
    else if c = 110 then (dropPrefix? "ull" r).map fun r => (.null, r)
    else if c = 116 then (dropPrefix? "rue" r).map fun r => (.bool true, r)
    else if c = 102 then (dropPrefix? "alse" r).map fun r => (.bool false, r)
    else scanNumber (c :: r)

/-- The items of an array after its bracket, past the closing one. -/
def parseItems : Nat → Str → Option (List Json × Str)
  | 0, _ => none
  | n + 1, s =>
    (parseValue n s).bind fun (v, r) =>
      match skipSpace r with
      | 44 :: r => (parseItems n (skipSpace r)).map fun (l, r) => (v :: l, r)
      | 93 :: r => some ([v], r)
      | _ => none

/-- The members of an object after its brace, past the closing one. -/
def parseFields : Nat → Str → Option (List (Str × Json) × Str)
  | 0, _ => none
  | _ + 1, [] => none
  | n + 1, c :: r =>
    if c = 34 then
      (scanString (r.length + 1) r).bind fun (k, r) =>
        match skipSpace r with
        | 58 :: r =>
          (parseValue n (skipSpace r)).bind fun (v, r) =>
            match skipSpace r with
            | 44 :: r => (parseFields n (skipSpace r)).map fun (f, r) => ((k, v) :: f, r)
            | 125 :: r => some ([(k, v)], r)
            | _ => none
        | _ => none
    else none
end

/-- The value of a whole JSON text. -/
def parse? (s : Str) : Option Json :=
  match parseValue s.length (skipSpace s) with
  | some (v, r) => if skipSpace r = [] then some v else none
  | none => none

/-- Sixteen-bit units, high byte first or low byte first. -/
def units16 (high : Bool) : Bytes → Option (List Nat)
  | [] => some []
  | a :: b :: r => (units16 high r).map ((if high then a.toNat * 256 + b.toNat else b.toNat * 256 + a.toNat) :: ·)
  | _ => none

/-- The code points of UTF-16 units, pairs of surrogates joined. -/
def joinUnits : List Nat → Str
  | [] => []
  | u :: l =>
    if 0xD800 ≤ u ∧ u ≤ 0xDBFF then
      match l with
      | w :: l =>
        if 0xDC00 ≤ w ∧ w ≤ 0xDFFF then (0x10000 + (u - 0xD800) * 0x400 + (w - 0xDC00)) :: joinUnits l
        else u :: joinUnits (w :: l)
      | [] => [u]
    else u :: joinUnits l
termination_by l => l.length

/-- The code points of UTF-32 units, high byte first or low byte first. -/
def units32 (high : Bool) : Bytes → Option Str
  | [] => some []
  | a :: b :: c :: d :: r =>
    let n := if high then ((a.toNat * 256 + b.toNat) * 256 + c.toNat) * 256 + d.toNat
      else ((d.toNat * 256 + c.toNat) * 256 + b.toNat) * 256 + a.toNat
    if n < 0x110000 then (units32 high r).map (n :: ·) else none
  | _ => none

/-- The text of JSON bytes, decoded as `json.detect_encoding` finds. -/
def decodeText? (data : Bytes) : Option Str :=
  if [0, 0, 0xFE, 0xFF] <+: data then units32 true (data.drop 4)
  else if [0xFF, 0xFE, 0, 0] <+: data then units32 false (data.drop 4)
  else if [0xFE, 0xFF] <+: data then (units16 true (data.drop 2)).map joinUnits
  else if [0xFF, 0xFE] <+: data then (units16 false (data.drop 2)).map joinUnits
  else if [0xEF, 0xBB, 0xBF] <+: data then Str.decodeUtf8? (data.drop 3)
  else match data with
    | 0 :: 0 :: _ :: _ :: _ => units32 true data
    | 0 :: _ :: _ :: _ :: _ => (units16 true data).map joinUnits
    | _ :: 0 :: 0 :: 0 :: _ => units32 false data
    | _ :: 0 :: _ :: _ :: _ => (units16 false data).map joinUnits
    | [0, _] => (units16 true data).map joinUnits
    | [_, 0] => (units16 false data).map joinUnits
    | _ => Str.decodeUtf8? data

/-- `strict_json_loads(data)`: the object of a JSON document, none where the code raises `ValidationError`. -/
def strictLoads? (data : Bytes) : Option Json :=
  (decodeText? data).bind fun s => (parse? s).bind fun v => match v with
    | .obj f => some (.obj f)
    | _ => none

end LeanCtx.Json
