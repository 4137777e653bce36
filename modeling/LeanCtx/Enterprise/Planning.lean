import LeanCtx.Enterprise.Fields
import LeanCtx.Python.Unicode
import LeanCtx.Workspace.Time

/-! The plans of a planner over sources, read as `planning.py` reads them: the request that is planned, the descriptors of its
    sources, and the plan that an instance answers, which is bound by two digests to what it selects. -/

namespace LeanCtx

namespace Unicode

/-- The zeros of the decimal digits: the other nine of a script follow its zero. -/
def decimalZeros : List Nat :=
  [48, 1632, 1776, 1984, 2406, 2534, 2662, 2790, 2918, 3046, 3174, 3302, 3430, 3558, 3664, 3792, 3872, 4160, 4240, 6112,
    6160, 6470, 6608, 6784, 6800, 6992, 7088, 7232, 7248, 42528, 43216, 43264, 43472, 43504, 43600, 44016, 65296, 66720,
    68912, 69734, 69872, 69942, 70096, 70384, 70736, 70864, 71248, 71360, 71472, 71904, 72016, 72784, 73040, 73120, 92768,
    92864, 93008, 120782, 120792, 120802, 120812, 120822, 123200, 123632, 125264, 130032]

/-- `\d`, and the value of the digit. -/
def decimal? (c : Nat) : Option Nat := (decimalZeros.find? fun z => z ≤ c && c < z + 10).map (c - ·)

end Unicode

namespace Planning

/-! ### Fields -/

/-- A text that `_text` accepts: not blank, without a control character where `controls` says so, and without NUL where `nul`
    says so. -/
def isText (max : Nat) (controls nul : Bool) (s : Str) : Bool :=
  s.all Str.isScalar && !s.isEmpty && s.utf8Length ≤ max && (!nul || !s.contains 0) && (!controls || !s.any Str.isControl) &&
    !s.all Unicode.isSpace

abbrev Text (max : Nat) (controls nul : Bool) := {s : Str // isText max controls nul s = true}

abbrev Identifier := Text 256 true true
abbrev Reference := Text 1024 true true

def Text.json {max : Nat} {controls nul : Bool} (t : Text max controls nul) : Json := .str t.1

/-- The message of `_text` for a string that it refuses. -/
def textMessage (field : String) (max : Nat) (controls nul : Bool) (s : Str) : String :=
  if !s.all Str.isScalar then field ++ " is not valid UTF-8"
  else if s.isEmpty then field ++ " must not be empty"
  else if max < s.utf8Length then field ++ " exceeds " ++ toString max ++ " UTF-8 bytes"
  else if nul && s.contains 0 then field ++ " contains NUL"
  else if controls && s.any Str.isControl then field ++ " contains a control character"
  else field ++ " must not be blank"

/-- `_text(value, field_name, maximum, controls=controls, reject_nul=nul)`. -/
def text (v : Json) (field : String) (max : Nat) (controls nul : Bool) : Except InstanceError (Text max controls nul) :=
  match v with
  | .str s =>
    if h : isText max controls nul s = true then .ok ⟨s, h⟩ else .error (.validation (textMessage field max controls nul s))
  | _ => .error (.validation (field ++ " must be a string"))

theorem text_eq_ok {v : Json} {field : String} {max : Nat} {controls nul : Bool} {t : Text max controls nul} :
    text v field max controls nul = .ok t ↔ v = t.json := by
  constructor
  · intro h
    unfold text at h
    split at h
    · split_ifs at h
      cases h
      rfl
    · cases h
  · rintro rfl
    simp [text, Text.json, t.2]

/-- `_bounded_identifier(value, field_name)`. -/
def identifier (v : Json) (field : String) : Except InstanceError Identifier := text v field 256 true true

/-- `_bounded_reference(value, field_name)`. -/
def reference (v : Json) (field : String) : Except InstanceError Reference := text v field 1024 true true

/-- `_integer(value, field_name, minimum, maximum)`. A Boolean is no integer here. -/
def integer (v : Json) (field : String) (min max : Nat) : Except InstanceError Nat :=
  match v with
  | .int n =>
    if (min : Int) ≤ n ∧ n ≤ max then .ok n.toNat else .error (.validation (field ++ " is outside its protocol bounds"))
  | _ => .error (.validation (field ++ " must be an integer"))

theorem integer_eq_ok {v : Json} {field : String} {min max n : Nat} :
    integer v field min max = .ok n ↔ v = .int n ∧ min ≤ n ∧ n ≤ max := by
  constructor
  · intro h
    unfold integer at h
    split at h
    · split_ifs at h with hn
      cases h
      exact ⟨congrArg Json.int (Int.toNat_of_nonneg (by omega)).symm, by omega⟩
    · cases h
  · rintro ⟨rfl, hmin, hmax⟩
    simp [integer, hmin, hmax]

/-- `_mapping(value, field_name)`. -/
def mapping (v : Json) (field : String) : Except InstanceError Unit :=
  ensure (v.isObj = true) (.validation (field ++ " must be an object"))

/-- `_exact_keys(value, expected, field_name)`. -/
def exactKeys (v : Json) (keys : List String) (field : String) : Except InstanceError Unit :=
  ensure (v.hasExactly keys = true) (.validation (field ++ " fields do not match the v1 contract"))

/-- `_enum(value, field_name, allowed)`. -/
def enum {α : Type} (all : List α) (name : α → String) (v : Json) (field : String) : Except InstanceError α :=
  match v with
  | .str s => match all.find? fun a => Str.lit (name a) = s with
    | some a => .ok a
    | none => .error (.validation (field ++ " has an unsupported value"))
  | _ => .error (.validation (field ++ " has an unsupported value"))

theorem enum_eq_ok {α : Type} {all : List α} {name : α → String} (hall : ∀ a, a ∈ all) (hname : Function.Injective name) {v : Json}
    {field : String} {a : α} : enum all name v field = .ok a ↔ v = .str (name a) := by
  constructor
  · intro h
    unfold enum at h
    split at h
    · split at h
      · next s b hb =>
        cases h
        have heq := List.find?_some hb
        rw [decide_eq_true_eq] at heq
        rw [heq]
      · cases h
    · cases h
  · rintro rfl
    unfold enum
    simp only [Str.lit_inj]
    split
    · next b hb =>
      have heq := List.find?_some hb
      rw [decide_eq_true_eq] at heq
      rw [hname heq]
    · next hb =>
      rw [List.find?_eq_none] at hb
      exact absurd (hb a (hall a)) (by simp)

/-! ### Timestamps and digests -/

/-- The year, month, day, hour, minute and second that a timestamp spells. A digit may be one of any script. -/
def scanParts : Str → Option (List Nat)
  | [a, b, c, d, 45, e, f, 45, g, h, 84, i, j, 58, k, l, 58, m, n, 90] => do
    let two := fun x y => do return (← Unicode.decimal? x) * 10 + (← Unicode.decimal? y)
    return [(← two a b) * 100 + (← two c d), ← two e f, ← two g h, ← two i j, ← two k l, ← two m n]
  | _ => none

/-- `datetime(year, month, day, hour, minute, second)` exists. -/
def isMoment : List Nat → Bool
  | [year, month, day, hour, minute, second] => (DateTime.make year month day hour minute second 0).isSome
  | _ => false

def isTimestamp (s : Str) : Bool := isText 256 true true s && (scanParts s).any isMoment

abbrev Timestamp := {s : Str // isTimestamp s = true}

def Timestamp.json (t : Timestamp) : Json := .str t.1

/-- `_timestamp(value, field_name)`. -/
def timestamp (v : Json) (field : String) : Except InstanceError Timestamp := do
  let t ← text v field 256 true true
  ensure ((scanParts t.1).isSome = true) (.validation (field ++ " must use canonical UTC timestamp syntax"))
  if h : isTimestamp t.1 = true then .ok ⟨t.1, h⟩
  else .error (.validation (field ++ " contains an invalid date or time"))

theorem timestamp_eq_ok {v : Json} {field : String} {t : Timestamp} : timestamp v field = .ok t ↔ v = t.json := by
  have hparts := t.2
  simp only [isTimestamp, Bool.and_eq_true] at hparts
  have hsome : (scanParts t.1).isSome = true := by
    cases hs : scanParts t.1 with
    | none => simp [hs] at hparts
    | some p => rfl
  simp only [timestamp, bind_eq_ok, ensure_eq_ok, text_eq_ok]
  constructor
  · rintro ⟨u, rfl, -, -, h⟩
    split_ifs at h
    cases h
    rfl
  · rintro rfl
    exact ⟨⟨t.1, hparts.1⟩, rfl, (), hsome, dif_pos t.2⟩

/-- A hexadecimal digit of either case. -/
def isHexadecimal (c : Nat) : Bool := isDigit c || (97 ≤ c && c ≤ 102) || (65 ≤ c && c ≤ 70)

/-- The digits of a digest without its prefix. -/
def isHexDigest (s : Str) : Bool := s.length == 64 && s.all isHexadecimal

abbrev ProjectionDigest := {s : Str // isHexDigest (Str.dropPrefix "sha256:" s) = true}

def ProjectionDigest.json (d : ProjectionDigest) : Json := .str d.1

/-- `_projection_digest(value, field_name)`. -/
def projectionDigest (v : Json) (field : String) : Except InstanceError ProjectionDigest :=
  match v with
  | .str s =>
    if h : isHexDigest (Str.dropPrefix "sha256:" s) = true then .ok ⟨s, h⟩
    else .error (.validation (field ++ " must contain a 64-digit hexadecimal digest"))
  | _ => .error (.validation (field ++ " must be a string"))

/-- The canonical bytes of a value, its error being one of validation. -/
def canonical (v : Json) : Except InstanceError Bytes :=
  match v.canonicalBytes? with
  | some b => .ok b
  | none => .error (.validation "value is not canonical JSON data")

theorem canonical_eq_ok {v : Json} {b : Bytes} : canonical v = .ok b ↔ v.canonicalBytes? = some b := by
  unfold canonical
  cases v.canonicalBytes? <;> simp

/-! ### Extensions -/

def maxProtocolItems : Nat := 256
def maxExtensionValueBytes : Nat := 65536
def maxExtensionDepth : Nat := 8

/-- The canonical bytes of an extension value are bounded. -/
def serialized (v : Json) : Except InstanceError Unit := do
  let b ← canonical v
  ensure (b.length ≤ maxExtensionValueBytes) (.validation "extension value exceeds its serialized byte bound")

mutual
/-- `_extension_value(value, depth)`. -/
def extensionValue (depth : Nat) : Json → Except InstanceError Unit
  | .obj f => do
    ensure (depth ≤ maxExtensionDepth) (.validation "extension value exceeds its nesting bound")
    ensure (f.length ≤ maxProtocolItems) (.validation "extension object exceeds its item bound")
    extensionFields (depth + 1) f
    serialized (.obj f)
  | .arr l => do
    ensure (depth ≤ maxExtensionDepth) (.validation "extension value exceeds its nesting bound")
    ensure (l.length ≤ maxProtocolItems) (.validation "extension array exceeds its item bound")
    extensionItems (depth + 1) l
    serialized (.arr l)
  | .str s => do
    ensure (depth ≤ maxExtensionDepth) (.validation "extension value exceeds its nesting bound")
    -- `value.encode("utf-8")` is not guarded here, as it is in `_text`.
    ensure (s.all Str.isScalar = true) .unicode
    ensure (s.utf8Length ≤ maxExtensionValueBytes) (.validation "extension string exceeds its byte bound")
    serialized (.str s)
  | .float x => do
    ensure (depth ≤ maxExtensionDepth) (.validation "extension value exceeds its nesting bound")
    ensure (∀ neg, x ≠ .inf neg) (.validation "extension number is not finite")
    serialized (.float x)
  | v => do
    ensure (depth ≤ maxExtensionDepth) (.validation "extension value exceeds its nesting bound")
    serialized v

def extensionItems (depth : Nat) : List Json → Except InstanceError Unit
  | [] => .ok ()
  | v :: l => do
    extensionValue depth v
    extensionItems depth l

def extensionFields (depth : Nat) : List (Str × Json) → Except InstanceError Unit
  | [] => .ok ()
  | (k, v) :: f => do
    let _ ← identifier (.str k) "extension object key"
    extensionValue depth v
    extensionFields depth f
end

/-- The fields of an object under other than the reserved keys. -/
def unreserved (v : Json) (reserved : List String) : List (Str × Json) :=
  match v with
  | .obj f => f.filter fun p => reserved.all fun k => p.1 ≠ Str.lit k
  | _ => []

/-- `_extensions(value, reserved)`. -/
def extensions (v : Json) (reserved : List String) : Except InstanceError (List (Str × Json)) := do
  let f := unreserved v reserved
  f.forM fun p => do
    let _ ← identifier (.str p.1) "extension key"
    extensionValue 0 p.2
  ensure (f.length ≤ maxProtocolItems) (.validation "extensions exceed their field bound")
  .ok f

theorem extensions_eq_ok {v : Json} {reserved : List String} {f : List (Str × Json)} (h : extensions v reserved = .ok f) :
    f = unreserved v reserved := by
  simp only [extensions, bind_eq_ok, ensure_eq_ok, Except.ok.injEq] at h
  obtain ⟨-, -, -, -, rfl⟩ := h
  rfl

end Planning
end LeanCtx
