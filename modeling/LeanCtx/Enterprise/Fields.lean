import LeanCtx.Session.Response
import LeanCtx.Json.Without

/-! The fields of what an authenticated instance sends and is sent, read as `source_execution.py` reads them. A check has one
    message and raises it as the error of the protocol or as one of validation. -/

namespace LeanCtx

namespace Str

/-- `unicodedata.category(character) == "Cc"`. -/
def isControl (c : Nat) : Bool := c < 32 || (127 ≤ c && c ≤ 159)

/-- `value.removeprefix(p)`. -/
def dropPrefix (p s : Str) : Str := if p <+: s then s.drop p.length else s

end Str

namespace Enterprise

/-- `_fail(message, protocol=protocol)`. -/
def fail (protocol : Bool) (message : String) : InstanceError := if protocol then .protocol message else .validation message

/-- `_mapping(value, field, protocol=protocol)`: an object that has canonical bytes. -/
def mapping (v : Json) (field : String) (protocol : Bool) : Except InstanceError Unit := do
  ensure (v.isObj = true) (fail protocol (field ++ " must be an object with string keys"))
  ensure (v.canonicalBytes?.isSome = true) (fail protocol (field ++ " contains non-canonical JSON data"))

theorem mapping_eq_ok {v : Json} {field : String} {protocol : Bool} {u : Unit} :
    mapping v field protocol = .ok u ↔ v.isObj = true ∧ v.Writable := by
  simp only [mapping, ensure_bind_eq_ok, ensure_eq_ok, Json.Writable, Option.isSome_iff_exists]

/-- A text that `_text` accepts, which forbids control characters or asks for printable ASCII where it is told to. -/
def isField (max : Nat) (printable controls : Bool) (s : Str) : Bool :=
  s.all Str.isScalar && (!s.isEmpty && s.utf8Length ≤ max && !s.contains 0) && (!controls || !s.any Str.isControl) &&
    (!printable || s.all fun c => 32 ≤ c && c ≤ 126)

abbrev Field (max : Nat) (printable controls : Bool) := {s : Str // isField max printable controls s = true}

def Field.json {max : Nat} {printable controls : Bool} (t : Field max printable controls) : Json := .str t.1

/-- The message of `_text` for a value that it refuses. -/
def textMessage (field : String) (max : Nat) (controls : Bool) : Json → String
  | .str s =>
    if !s.all Str.isScalar then field ++ " is not valid UTF-8"
    else if s.isEmpty || max < s.utf8Length || s.contains 0 then field ++ " exceeds its byte bound"
    else if controls && s.any Str.isControl then field ++ " contains a control character"
    else field ++ " must be printable ASCII"
  | _ => field ++ " must be a string"

/-- `_text(value, field, maximum=max, protocol=protocol, printable=printable, controls=controls)`. -/
def text (v : Json) (field : String) (max : Nat) (protocol printable controls : Bool) :
    Except InstanceError (Field max printable controls) :=
  match v with
  | .str s =>
    if h : isField max printable controls s = true then .ok ⟨s, h⟩
    else .error (fail protocol (textMessage field max controls (.str s)))
  | v => .error (fail protocol (textMessage field max controls v))

theorem text_eq_ok {v : Json} {field : String} {max : Nat} {protocol printable controls : Bool} {t : Field max printable controls} :
    text v field max protocol printable controls = .ok t ↔ v = t.json := by
  constructor
  · intro h
    unfold text at h
    split at h
    · split_ifs at h
      cases h
      rfl
    · cases h
  · rintro rfl
    simp [text, Field.json, t.2]

/-- `_integer(value, field, maximum=max, protocol=protocol)`. A Boolean is no integer here. -/
def integer (v : Json) (field : String) (max : Nat) (protocol : Bool) : Except InstanceError Nat :=
  match v with
  | .int n =>
    if 0 ≤ n ∧ n ≤ max then .ok n.toNat else .error (fail protocol (field ++ " must be an unsigned bounded integer"))
  | _ => .error (fail protocol (field ++ " must be an unsigned bounded integer"))

theorem integer_eq_ok {v : Json} {field : String} {max n : Nat} {protocol : Bool} :
    integer v field max protocol = .ok n ↔ v = .int n ∧ n ≤ max := by
  constructor
  · intro h
    unfold integer at h
    split at h
    · split_ifs at h with hn
      cases h
      exact ⟨congrArg Json.int (Int.toNat_of_nonneg hn.1).symm, by omega⟩
    · cases h
  · rintro ⟨rfl, hn⟩
    simp [integer, hn]

/-- `_exact_version(value, field, protocol=protocol)`. -/
def exactVersion (v : Json) (field : String) (protocol : Bool) : Except InstanceError Unit :=
  ensure (v = .int 1) (fail protocol (field ++ " is unsupported"))

theorem exactVersion_eq_ok {v : Json} {field : String} {protocol : Bool} {u : Unit} :
    exactVersion v field protocol = .ok u ↔ v = .int 1 := ensure_eq_ok

/-- `validate_digest(value, field)`. -/
def validateDigest (v : Json) (field : String) : Except InstanceError Digest :=
  match v with
  | .str s =>
    if h : isDigest s = true then .ok ⟨s, h⟩
    else .error (.validation (Instance.formMessage field " must be sha256:<64 lowercase hex>" (.str s)))
  | v => .error (.validation (Instance.formMessage field " must be sha256:<64 lowercase hex>" v))

theorem validateDigest_eq_ok {v : Json} {field : String} {d : Digest} : validateDigest v field = .ok d ↔ v = d.json := by
  constructor
  · intro h
    unfold validateDigest at h
    split at h
    · split_ifs at h
      cases h
      rfl
    · cases h
  · rintro rfl
    simp [validateDigest, Digest.json, d.2]

/-- `except ValidationError: raise InstanceProtocolError(message)`: another error goes on. -/
def wrapping {α : Type} (x : Except InstanceError α) (message : String) : Except InstanceError α :=
  catching x fun
    | .validation _ => .protocol message
    | e => e

@[simp] theorem wrapping_eq_ok {α : Type} {x : Except InstanceError α} {message : String} {a : α} :
    wrapping x message = .ok a ↔ x = .ok a := catching_eq_ok

/-- `strict_json_loads(raw)`, its error raised as one of the protocol. -/
def loads (raw : Bytes) (message : String) : Except InstanceError Json :=
  match Json.strictLoads? raw with
  | some v => .ok v
  | none => .error (.protocol message)

theorem loads_eq_ok {raw : Bytes} {message : String} {v : Json} : loads raw message = .ok v ↔ Json.strictLoads? raw = some v := by
  unfold loads
  cases Json.strictLoads? raw <;> simp

/-- `set(value) == set(keys)`. -/
def exactKeys (v : Json) (keys : List String) (message : String) : Except InstanceError Unit :=
  ensure (v.hasExactly keys = true) (.protocol message)

theorem exactKeys_eq_ok {v : Json} {keys : List String} {message : String} {u : Unit} :
    exactKeys v keys message = .ok u ↔ v.hasExactly keys = true := ensure_eq_ok

end Enterprise
end LeanCtx
