import LeanCtx.Go.Surrogates

/-! The decoder of `encoding/json`, which gives a text token by token, and the loader of the Go package over it. A number is kept as it
    is written, and a string is unquoted. -/

namespace LeanCtx.Go
open Json (Piece Raw skipSpace dropPrefix?)

/-- A value of type `any` that is decoded with `UseNumber`. A map has its entries in the order in which they were set. -/
inductive GoValue
  | null
  | bool (b : Bool)
  | number (text : Str)
  | string (s : Str)
  | slice (items : List GoValue)
  | map (entries : List (Str × GoValue))

/-- The errors of decoding: `io.EOF` where no token is left, and the others. -/
inductive DecodeError
  | eof
  | other (message : String)
deriving DecidableEq

inductive TokenState
  | topValue
  | arrayStart
  | arrayValue
  | arrayComma
  | objectStart
  | objectKey
  | objectColon
  | objectValue
  | objectComma
deriving DecidableEq

/-- A token: a delimiter, or a value that is neither an array nor an object. -/
inductive Token
  | delim (c : Nat)
  | value (v : GoValue)

/-- A decoder over the text that is left. -/
structure Decoder where
  rest : Str
  tokenState : TokenState
  tokenStack : List TokenState

/-! ### Numbers -/

namespace Scanner

def digits (s : Str) : Option (Str × Str) :=
  if s.takeWhile isDigit = [] then none else some (s.takeWhile isDigit, s.dropWhile isDigit)

def sign : Str → Str × Str
  | 45 :: r => ([45], r)
  | s => ([], s)

def integer : Str → Option (Str × Str)
  | [] => none
  | c :: r =>
    if c = 48 then some ([48], r) else if isDigit c then some (c :: r.takeWhile isDigit, r.dropWhile isDigit) else none

def fraction : Str → Option (Str × Str)
  | 46 :: r => (digits r).map fun (t, u) => (46 :: t, u)
  | s => some ([], s)

def exponentSign : Str → Str × Str
  | 43 :: r => ([43], r)
  | 45 :: r => ([45], r)
  | s => ([], s)

def exponent : Str → Option (Str × Str)
  | [] => some ([], [])
  | c :: r =>
    if c = 101 ∨ c = 69 then (digits (exponentSign r).2).map fun (t, u) => (c :: (exponentSign r).1 ++ t, u) else some ([], c :: r)

/-- The text of a number, and the rest. -/
def number (s : Str) : Option (Str × Str) := do
  let (whole, t) ← integer (sign s).2
  let (fraction, u) ← fraction t
  let (exponent, r) ← exponent u
  return ((sign s).1 ++ whole ++ fraction ++ exponent, r)

end Scanner

/-! ### Tokens -/

namespace Decoder

/-- `dec.Decode(&x)` where neither an array nor an object stands. -/
def decode : Str → Option (GoValue × Str)
  | [] => none
  | c :: r =>
    if c = 34 then (Raw.scanString (r.length + 1) r).map fun (l, r) => (.string (unquote l), r)
    else if c = 110 then (dropPrefix? "ull" r).map fun r => (.null, r)
    else if c = 116 then (dropPrefix? "rue" r).map fun r => (.bool true, r)
    else if c = 102 then (dropPrefix? "alse" r).map fun r => (.bool false, r)
    else (Scanner.number (c :: r)).map fun (t, r) => (.number t, r)

/-- `dec.tokenValueAllowed()`. -/
def tokenValueAllowed : TokenState → Bool
  | .topValue | .arrayStart | .arrayValue | .objectValue => true
  | _ => false

/-- `dec.tokenValueEnd()`. -/
def tokenValueEnd : TokenState → TokenState
  | .arrayStart | .arrayValue => .arrayComma
  | .objectValue => .objectComma
  | state => state

/-- `dec.More()`. -/
def more (d : Decoder) : Bool :=
  match skipSpace d.rest with
  | [] => false
  | c :: _ => c != 93 && c != 125

def tokenError {α : Type} : Except DecodeError α := .error (.other "invalid character")

/-- The end of an array or of an object, after its bracket. -/
def pop (c : Nat) (r : Str) : List TokenState → Except DecodeError (Option Token × Decoder)
  | [] => tokenError
  | state :: stack => .ok (some (.delim c), ⟨r, tokenValueEnd state, stack⟩)

/-- One round of the loop of `dec.Token()`, which gives a token or moves past a separator. -/
def round (d : Decoder) : Except DecodeError (Option Token × Decoder) :=
  let state := d.tokenState
  match skipSpace d.rest with
  | [] => .error .eof
  | c :: r =>
    if c = 91 then
      if tokenValueAllowed state = true then .ok (some (.delim 91), ⟨r, .arrayStart, state :: d.tokenStack⟩) else tokenError
    else if c = 93 then if state = .arrayStart ∨ state = .arrayComma then pop 93 r d.tokenStack else tokenError
    else if c = 123 then
      if tokenValueAllowed state = true then .ok (some (.delim 123), ⟨r, .objectStart, state :: d.tokenStack⟩) else tokenError
    else if c = 125 then if state = .objectStart ∨ state = .objectComma then pop 125 r d.tokenStack else tokenError
    else if c = 58 then if state = .objectColon then .ok (none, ⟨r, .objectValue, d.tokenStack⟩) else tokenError
    else if c = 44 then
      if state = .arrayComma then .ok (none, ⟨r, .arrayValue, d.tokenStack⟩)
      else if state = .objectComma then .ok (none, ⟨r, .objectKey, d.tokenStack⟩)
      else tokenError
    else if c = 34 ∧ (state = .objectStart ∨ state = .objectKey) then
      match decode (c :: r) with
      | some (v, r) => .ok (some (.value v), ⟨r, .objectColon, d.tokenStack⟩)
      | none => tokenError
    else if tokenValueAllowed state = true then
      match decode (c :: r) with
      | some (v, r) => .ok (some (.value v), ⟨r, tokenValueEnd state, d.tokenStack⟩)
      | none => tokenError
    else tokenError

/-- `dec.Token()`. No separator is allowed after a separator, so there are two rounds at most. -/
def token (d : Decoder) : Except DecodeError (Token × Decoder) := do
  match ← round d with
  | (some t, d) => .ok (t, d)
  | (none, d) =>
    match ← round d with
    | (some t, d) => .ok (t, d)
    | (none, _) => tokenError

end Decoder

/-! ### The loader -/

mutual
/-- `decodeStrictValue(decoder)`. The fuel bounds the calls and the rounds of their loops. -/
def decodeStrictValue : Nat → Decoder → Except DecodeError (GoValue × Decoder)
  | 0, _ => .error (.other "out of fuel")
  | n + 1, d => do
    let (token, d) ← d.token
    match token with
    | .delim 123 => decodeMembers n [] d
    | .delim 91 => decodeItems n [] d
    | .delim _ => .error (.other "unexpected delimiter")
    | .value v => .ok (v, d)

/-- The loop over the members of an object, and its end. -/
def decodeMembers : Nat → List (Str × GoValue) → Decoder → Except DecodeError (GoValue × Decoder)
  | 0, _, _ => .error (.other "out of fuel")
  | n + 1, result, d =>
    if d.more = true then do
      let (keyToken, d) ← d.token
      match keyToken with
      | .value (.string key) =>
        if key ∈ result.map (·.1) then .error (.other "duplicate key")
        else do
          let (child, d) ← decodeStrictValue n d
          decodeMembers n (result ++ [(key, child)]) d
      | _ => .error (.other "object key is not string")
    else
      match d.token with
      | .ok (.delim 125, d) => .ok (.map result, d)
      | _ => .error (.other "object not closed")

/-- The loop over the items of an array, and its end. -/
def decodeItems : Nat → List GoValue → Decoder → Except DecodeError (GoValue × Decoder)
  | 0, _, _ => .error (.other "out of fuel")
  | n + 1, result, d =>
    if d.more = true then do
      let (child, d) ← decodeStrictValue n d
      decodeItems n (result ++ [child]) d
    else
      match d.token with
      | .ok (.delim 93, d) => .ok (.slice result, d)
      | _ => .error (.other "array not closed")
end

/-- The fuel for a text: two for each character, and one. -/
def fuel (s : Str) : Nat := 2 * s.length + 1

/-- `strictJSONLoads(data, label)`. -/
def strictJSONLoads (data : Bytes) (label : String) : Except String GoValue :=
  match (Str.decodeUtf8? data).filter fun s => s.all Str.isScalar with
  | none => .error ("invalid " ++ label)
  | some s =>
    match decodeStrictValue (fuel s) ⟨s, .topValue, []⟩ with
    | .error _ => .error ("invalid " ++ label)
    | .ok (value, decoder) =>
      match decoder.token with
      | .error .eof =>
        match value with
        | .map entries => .ok (.map entries)
        | _ => .error (label ++ " must be a JSON object")
      | _ => .error ("invalid " ++ label ++ ": trailing data")

end LeanCtx.Go
