import LeanCtx.Session.Protocol

/-! The response of an instance, read as `instance.py` reads it: the fields first, then the five records of a response, the
    joins of which make the view of a plan. Each record comes with what it is to be written in a JSON value. -/

namespace LeanCtx

/-- An exception of the subprocess client, with its message. -/
inductive InstanceError
  | protocol (message : String)
  | compatibility (message : String)
  | unsupported (message : String)
  | policyAdmission (message : String)
  | sourceUnavailable (message : String)
  | rejected (message : String)
  | execution (message : String)
  | integrity (message : String)
  | validation (message : String)
  | typeError
  | unicode
deriving DecidableEq

namespace Instance

/-! ### Fields -/

section
variable {α β : Type}

/-- A string that a predicate accepts. -/
def stringOf (p : Str → Bool) (message : Json → String) (v : Json) : Except InstanceError {s : Str // p s = true} :=
  match v with
  | .str s => if h : p s = true then .ok ⟨s, h⟩ else .error (.protocol (message (.str s)))
  | v => .error (.protocol (message v))

theorem stringOf_eq_ok {p : Str → Bool} {message : Json → String} {v : Json} {t : {s : Str // p s = true}} :
    stringOf p message v = .ok t ↔ v = .str t.1 := by
  constructor
  · intro h
    unfold stringOf at h
    split at h
    · split_ifs at h
      cases h
      rfl
    · cases h
  · rintro rfl
    simp [stringOf, t.2]

/-- A value that may be null. -/
def nullable (f : Json → Except InstanceError α) : Json → Except InstanceError (Option α)
  | .null => .ok none
  | v => some <$> f v

theorem nullable_of_ne_null {f : Json → Except InstanceError α} {v : Json} (h : v ≠ .null) : nullable f v = some <$> f v := by
  unfold nullable
  split
  · exact absurd rfl h
  · rfl

/-- What an optional value is read from, null where there is none. -/
def ReadsOption (R : α → Json → Prop) : Option α → Json → Prop
  | none, v => v = .null
  | some a, v => R a v

theorem nullable_eq_ok {f : Json → Except InstanceError α} {R : α → Json → Prop} (hf : ∀ v a, f v = .ok a ↔ R a v)
    (hnull : ∀ a, ¬R a .null) {v : Json} {o : Option α} : nullable f v = .ok o ↔ ReadsOption R o v := by
  by_cases hv : v = .null
  · subst hv
    cases o with
    | none => exact iff_of_true rfl rfl
    | some a => exact iff_of_false nofun (hnull a)
  · rw [nullable_of_ne_null hv]
    cases hread : f v with
    | error e =>
      refine iff_of_false nofun ?_
      cases o with
      | none => exact hv
      | some a =>
        intro h
        rw [(hf v a).mpr h] at hread
        cases hread
    | ok b =>
      cases o with
      | none => exact iff_of_false nofun hv
      | some a =>
        change Except.ok (some b) = Except.ok (some a) ↔ R a v
        rw [← hf, hread]
        simp

theorem readsOption_eq {g : α → Json} {o : Option α} {v : Json} : ReadsOption (fun a v => v = g a) o v ↔ v = optional g o := by
  cases o <;> rfl

theorem nullable_eq_ok_optional {f : Json → Except InstanceError α} {g : α → Json} (hf : ∀ v a, f v = .ok a ↔ v = g a)
    (hnull : ∀ a, g a ≠ .null) {v : Json} {o : Option α} : nullable f v = .ok o ↔ v = optional g o :=
  (nullable_eq_ok hf fun a h => hnull a h.symm).trans readsOption_eq

/-- A field that may not be null. -/
def required (o : Option α) (message : String) : Except InstanceError α :=
  match o with
  | some a => .ok a
  | none => .error (.protocol message)

theorem required_eq_ok {o : Option α} {message : String} {a : α} : required o message = .ok a ↔ o = some a := by
  cases o <;> simp [required]

/-- A member of a set of names. A value that Python cannot hash raises a `TypeError`. -/
def member (all : List α) (name : α → String) (message : String) : Json → Except InstanceError α
  | .str s => match all.find? fun a => Str.lit (name a) = s with
    | some a => .ok a
    | none => .error (.protocol message)
  | .arr _ => .error .typeError
  | .obj _ => .error .typeError
  | _ => .error (.protocol message)

theorem member_eq_ok {all : List α} {name : α → String} {message : String} (hall : ∀ a, a ∈ all)
    (hname : Function.Injective name) {v : Json} {a : α} : member all name message v = .ok a ↔ v = .str (name a) := by
  constructor
  · intro h
    unfold member at h
    split at h
    · split at h
      · next s b hb =>
        cases h
        have heq := List.find?_some hb
        rw [decide_eq_true_eq] at heq
        rw [heq]
      · cases h
    all_goals cases h
  · rintro rfl
    unfold member
    simp only [Str.lit_inj]
    split
    · next b hb =>
      have heq := List.find?_some hb
      rw [decide_eq_true_eq] at heq
      rw [hname heq]
    · next hb =>
      rw [List.find?_eq_none] at hb
      exact absurd (hb a (hall a)) (by simp)

/-- The items of a list, each read by itself. -/
theorem mapM_eq_ok {ε : Type} {f : α → Except ε β} {l : List α} {m : List β} :
    l.mapM f = .ok m ↔ List.Forall₂ (fun a b => f a = .ok b) l m := by
  induction l generalizing m with
  | nil =>
    rw [List.mapM_nil, pure_eq_ok, List.forall₂_nil_left_iff]
    exact eq_comm
  | cons a l ih =>
    rw [List.mapM_cons, bind_eq_ok, List.forall₂_cons_left_iff]
    simp only [bind_eq_ok, pure_eq_ok, ih]
    constructor
    · rintro ⟨b, hb, n, hn, rfl⟩
      exact ⟨b, n, hb, hn, rfl⟩
    · rintro ⟨b, n, hb, hn, rfl⟩
      exact ⟨b, hb, n, hn, rfl⟩

theorem mapM_eq_ok_map {ε : Type} {f : α → Except ε β} {g : β → α} (hf : ∀ a b, f a = .ok b ↔ a = g b) {l : List α}
    {m : List β} : l.mapM f = .ok m ↔ l = m.map g := by
  rw [mapM_eq_ok, ← List.forall₂_eq_eq_eq, List.forall₂_map_right_iff]
  simp only [hf]

end

/-- `_int(value, field_name)`. A Boolean is no integer here. -/
def int (v : Json) (field : String) : Except InstanceError Int :=
  match v with
  | .int n => .ok n
  | _ => .error (.protocol (field ++ " must be an integer"))

theorem int_eq_ok {v : Json} {field : String} {n : Int} : int v field = .ok n ↔ v = .int n := by
  unfold int
  split <;> simp_all

def maxRefBytes : Nat := 512

/-- A text that `_string` accepts. -/
def isString (max : Nat) (s : Str) : Bool := s.all Str.isScalar && s.utf8Length ≤ max && !s.contains 0

abbrev BoundedString (max : Nat) := {s : Str // isString max s = true}

def stringMessage (field : String) (max : Nat) : Json → String
  | .str s =>
    if !s.all Str.isScalar then field ++ " is not valid UTF-8"
    else if max < s.utf8Length then field ++ " exceeds its bound"
    else field ++ " contains NUL"
  | _ => field ++ " must be a string"

/-- `_string(value, field_name, maximum)`. -/
def string (v : Json) (field : String) (max : Nat) : Except InstanceError (BoundedString max) :=
  stringOf (isString max) (stringMessage field max) v

theorem string_eq_ok {v : Json} {field : String} {max : Nat} {s : BoundedString max} :
    string v field max = .ok s ↔ v = .str s.1 := stringOf_eq_ok

def refMessage (field : String) : Json → String
  | .str s =>
    if !s.all Str.isScalar then field ++ " is not valid UTF-8"
    else if s.isEmpty || maxRefBytes < s.utf8Length then field ++ " must be 1.." ++ toString maxRefBytes ++ " bytes"
    else field ++ " must be printable ASCII"
  | _ => field ++ " must be a string"

/-- The message of `validate_digest` or of `validate_output_ref`: that of the reference, or the given one. -/
def formMessage (field form : String) : Json → String
  | .str s => if isRef maxRefBytes s = true then field ++ form else refMessage field (.str s)
  | v => refMessage field v

/-- `_required_ref(value, field_name)`. -/
def requiredRef (v : Json) (field : String) : Except InstanceError (Ref 512) := stringOf (isRef 512) (refMessage field) v

/-- `_optional_digest(value, field_name)`. -/
def optionalDigest (v : Json) (field : String) : Except InstanceError (Option Digest) :=
  nullable (stringOf isDigest (formMessage field " must be sha256:<64 lowercase hex>")) v

/-- `_optional_output_ref(value, field_name)`. -/
def optionalOutputRef (v : Json) (field : String) : Except InstanceError (Option OutputRef) :=
  nullable (stringOf isOutputRef (formMessage field " must be output:<64 lowercase hex>")) v

def outputJson (r : OutputRef) : Json := .str r.1

theorem requiredRef_eq_ok {v : Json} {field : String} {r : Ref 512} : requiredRef v field = .ok r ↔ v = r.json := stringOf_eq_ok

theorem optionalDigest_eq_ok {v : Json} {field : String} {d : Option Digest} :
    optionalDigest v field = .ok d ↔ v = optional Digest.json d :=
  nullable_eq_ok_optional (fun _ _ => stringOf_eq_ok) fun _ => Json.noConfusion

theorem optionalOutputRef_eq_ok {v : Json} {field : String} {r : Option OutputRef} :
    optionalOutputRef v field = .ok r ↔ v = optional outputJson r :=
  nullable_eq_ok_optional (fun _ _ => stringOf_eq_ok) fun _ => Json.noConfusion

def maxRefs : Nat := 32

/-- Distinct references, at least one and at most `maxRefs`. -/
abbrev Lineage := {l : List (Ref 512) // (0 < l.length ∧ l.length ≤ maxRefs) ∧ l.Nodup}

def Lineage.json (l : Lineage) : Json := .arr (l.1.map Ref.json)

/-- The references of an array, in its order. -/
def lineage (v : Json) (field : String) : Except InstanceError Lineage :=
  match v with
  | .arr l =>
    if 0 < l.length ∧ l.length ≤ maxRefs then do
      let refs ← l.mapM fun v => requiredRef v field
      if h : (0 < refs.length ∧ refs.length ≤ maxRefs) ∧ refs.Nodup then .ok ⟨refs, h⟩
      else .error (.protocol (field ++ " contains duplicates"))
    else .error (.protocol (field ++ " exceeds its bound"))
  | _ => .error (.protocol (field ++ " exceeds its bound"))

theorem lineage_eq_ok {v : Json} {field : String} {l : Lineage} : lineage v field = .ok l ↔ v = Lineage.json l := by
  have hitem : ∀ (v : Json) (r : Ref 512), requiredRef v field = .ok r ↔ v = r.json := fun _ _ => requiredRef_eq_ok
  constructor
  · intro h
    unfold lineage at h
    split at h
    · split_ifs at h
      obtain ⟨refs, hrefs, h⟩ := bind_eq_ok.mp h
      split_ifs at h
      cases h
      rw [Lineage.json, (mapM_eq_ok_map hitem).mp hrefs]
    · cases h
  · rintro rfl
    have hlength : 0 < (l.1.map Ref.json).length ∧ (l.1.map Ref.json).length ≤ maxRefs := by
      rw [List.length_map]
      exact l.2.1
    have hitems := (mapM_eq_ok_map hitem).mpr (rfl : l.1.map Ref.json = l.1.map Ref.json)
    simp only [lineage, Lineage.json]
    rw [if_pos hlength, hitems, ok_bind, dif_pos l.2]

/-- `_validate_pair(output_ref, output_digest, label)`. -/
def validatePair (r : Option OutputRef) (d : Option Digest) (label : String) : Except InstanceError Unit :=
  match r, d with
  | none, _ => .ok ()
  | some _, none => .error (.protocol (label ++ " output reference requires a digest"))
  | some r, some d =>
    ensure (r.1 = Str.lit "output:" ++ d.hex) (.protocol (label ++ " output reference does not match digest"))

/-- A reference to an output is the one that the digest names. -/
def Paired (r : Option OutputRef) (d : Option Digest) : Prop := ∀ r' ∈ r, ∃ d' ∈ d, r'.1 = Str.lit "output:" ++ d'.hex

theorem validatePair_eq_ok {r : Option OutputRef} {d : Option Digest} {label : String} {u : Unit} :
    validatePair r d label = .ok u ↔ Paired r d := by
  cases r with
  | none => simp [validatePair, Paired]
  | some r =>
    cases d with
    | none => simp [validatePair, Paired]
    | some d => simp [validatePair, Paired]

/-- `_exact_keys(value, expected, label)`. -/
def exactKeys (v : Json) (keys : List String) (label : String) : Except InstanceError Unit :=
  ensure (v.hasExactly keys = true) (.protocol (label ++ " fields do not match the v1 contract"))

theorem exactKeys_eq_ok {v : Json} {keys : List String} {label : String} {u : Unit} :
    exactKeys v keys label = .ok u ↔ v.hasExactly keys = true := ensure_eq_ok

theorem isObj_of_hasExactly {v : Json} {keys : List String} (h : v.hasExactly keys = true) : v.isObj = true := by
  cases v with
  | obj f => rfl
  | _ => cases h

/-! ### Measurements, failures and links to receipts -/

end Instance

open Instance

/-- The classifications, in the order of the source. -/
def Classification.all : List Classification := [.measured, .estimated, .unavailable]

theorem Classification.mem_all (c : Classification) : c ∈ all := by cases c <;> simp [all]

theorem Classification.name_injective : Function.Injective name := by
  intro a b h
  cases a <;> cases b <;> first | rfl | exact absurd h (by decide)

namespace ContextMeasurement

def toDict (m : ContextMeasurement) : Json :=
  Json.mkObj [("name", .str m.name.1), ("unit", .str m.unit.1), ("classification", .str m.classification.name),
    ("value", optional (fun n : Nat => .int n) m.value)]

/-- `ContextMeasurement(name, unit, classification, value)`. -/
def make (name unit classification value : Json) : Except InstanceError ContextMeasurement := do
  let name ← stringOf isAsciiName (fun _ => "measurement name must be lowercase ASCII") name
  let unit ← stringOf isAsciiName (fun _ => "measurement unit must be lowercase ASCII") unit
  let classification ← member Classification.all Classification.name "invalid measurement classification" classification
  if h : classification = .unavailable then
    if value = .null then .ok ⟨name, unit, classification, none, by simp [h]⟩
    else .error (.protocol "unavailable measurement value must be null")
  else match value with
    | .int n =>
      if 0 ≤ n then .ok ⟨name, unit, classification, some n.toNat, by simp [h]⟩
      else .error (.protocol "measurement value must be a non-negative integer")
    | _ => .error (.protocol "measurement value must be a non-negative integer")

/-- What a measurement is written as. -/
structure Reads (m : ContextMeasurement) (v : Json) : Prop where
  keys : v.hasExactly ["name", "unit", "classification", "value"] = true
  name : v.get "name" = .str m.name.1
  unit : v.get "unit" = .str m.unit.1
  classification : v.get "classification" = .str m.classification.name
  value : v.get "value" = optional (fun n : Nat => .int n) m.value

/-- `_parse_measurement(value)`. -/
def parse (v : Json) : Except InstanceError ContextMeasurement := do
  ensure (v.isObj = true) (.protocol "measurement must be an object")
  exactKeys v ["name", "unit", "classification", "value"] "measurement"
  make (v.get "name") (v.get "unit") (v.get "classification") (v.get "value")

theorem make_eq_ok {name unit classification value : Json} {m : ContextMeasurement} :
    make name unit classification value = .ok m ↔ name = .str m.name.1 ∧ unit = .str m.unit.1 ∧
      classification = .str m.classification.name ∧ value = optional (fun n : Nat => .int n) m.value := by
  simp only [make, bind_eq_ok, stringOf_eq_ok, member_eq_ok Classification.mem_all Classification.name_injective]
  constructor
  · rintro ⟨a, rfl, b, rfl, c, rfl, h⟩
    split at h
    · split_ifs at h with hvalue
      cases h
      exact ⟨rfl, rfl, rfl, hvalue⟩
    · split at h
      · next n =>
        split_ifs at h with hn
        cases h
        exact ⟨rfl, rfl, rfl, congrArg Json.int (Int.toNat_of_nonneg hn).symm⟩
      · cases h
  · obtain ⟨a, b, c, o, havailable⟩ := m
    rintro ⟨rfl, rfl, rfl, rfl⟩
    refine ⟨a, rfl, b, rfl, c, rfl, ?_⟩
    split
    · next hc =>
      cases havailable.mpr hc
      rw [optional, if_pos rfl]
    · next hc =>
      cases o with
      | none => exact absurd (havailable.mp rfl) hc
      | some n => simp [optional]

theorem parse_eq_ok {v : Json} {m : ContextMeasurement} : parse v = .ok m ↔ m.Reads v := by
  simp only [parse, bind_eq_ok, ensure_eq_ok, exactKeys_eq_ok, exists_const, make_eq_ok]
  constructor
  · rintro ⟨-, hkeys, hname, hunit, hclass, hvalue⟩
    exact ⟨hkeys, hname, hunit, hclass, hvalue⟩
  · rintro ⟨hkeys, hname, hunit, hclass, hvalue⟩
    exact ⟨isObj_of_hasExactly hkeys, hkeys, hname, hunit, hclass, hvalue⟩

theorem reads_toDict (m : ContextMeasurement) : m.Reads m.toDict where
  keys := Json.hasExactly_mkObj_self _
  name := Json.get_mkObj _ _
  unit := Json.get_mkObj _ _
  classification := Json.get_mkObj _ _
  value := Json.get_mkObj _ _

end ContextMeasurement

def FailureCode.all : List FailureCode :=
  [.policyRejected, .sourceUnavailable, .sourceIntegrityMismatch, .resourceLimit, .unsupportedOperation, .internal]

theorem FailureCode.mem_all (c : FailureCode) : c ∈ all := by cases c <;> simp [all]

theorem FailureCode.name_injective : Function.Injective name := by
  intro a b h
  cases a <;> cases b <;> first | rfl | exact absurd h (by decide)

namespace ContextFailure

def toDict (f : ContextFailure) : Json :=
  Json.mkObj [("code", .str f.code.name), ("retryable_by_host", .bool f.retryableByHost),
    ("recovery_ref", optional Ref.json f.recoveryRef)]

structure Reads (f : ContextFailure) (v : Json) : Prop where
  keys : v.hasExactly ["code", "retryable_by_host", "recovery_ref"] = true
  code : v.get "code" = .str f.code.name
  retryableByHost : v.get "retryable_by_host" = .bool f.retryableByHost
  recoveryRef : v.get "recovery_ref" = optional Ref.json f.recoveryRef

def parseFields (v : Json) : Except InstanceError ContextFailure := do
  ensure (v.isObj = true) (.protocol "failure must be an object or null")
  exactKeys v ["code", "retryable_by_host", "recovery_ref"] "failure"
  let code ← member FailureCode.all FailureCode.name "unknown instance failure code" (v.get "code")
  let recoveryRef ← nullable (fun v => requiredRef v "failure.recovery_ref") (v.get "recovery_ref")
  match v.get "retryable_by_host" with
  | .bool b => .ok ⟨code, b, recoveryRef⟩
  | _ => .error (.protocol "retryable_by_host must be boolean")

/-- `_parse_failure(value)`. -/
def parse : Json → Except InstanceError (Option ContextFailure) := nullable parseFields

theorem parseFields_eq_ok {v : Json} {f : ContextFailure} : parseFields v = .ok f ↔ f.Reads v := by
  have href : ∀ (v : Json) (r : Ref 512), requiredRef v "failure.recovery_ref" = .ok r ↔ v = r.json := fun _ _ => requiredRef_eq_ok
  simp only [parseFields, bind_eq_ok, ensure_eq_ok, exactKeys_eq_ok, exists_const,
    member_eq_ok FailureCode.mem_all FailureCode.name_injective, nullable_eq_ok_optional href fun _ => Json.noConfusion]
  constructor
  · rintro ⟨-, hkeys, c, hcode, r, hrecovery, h⟩
    split at h
    · next b hb =>
      cases h
      exact ⟨hkeys, hcode, hb, hrecovery⟩
    · cases h
  · rintro ⟨hkeys, hcode, hretry, hrecovery⟩
    refine ⟨isObj_of_hasExactly hkeys, hkeys, f.code, hcode, f.recoveryRef, hrecovery, ?_⟩
    rw [hretry]

theorem parse_eq_ok {v : Json} {o : Option ContextFailure} : parse v = .ok o ↔ ReadsOption Reads o v := by
  have hfields : ∀ (v : Json) (f : ContextFailure), parseFields v = .ok f ↔ f.Reads v := fun _ _ => parseFields_eq_ok
  exact nullable_eq_ok hfields fun f h => Bool.false_ne_true h.keys

theorem reads_toDict (f : ContextFailure) : f.Reads f.toDict where
  keys := Json.hasExactly_mkObj_self _
  code := Json.get_mkObj _ _
  retryableByHost := Json.get_mkObj _ _
  recoveryRef := Json.get_mkObj _ _

end ContextFailure

namespace ContextReceiptLink

def toDict (l : ContextReceiptLink) : Json :=
  Json.mkObj [("schema_version", .int 1), ("receipt_id", l.receiptId.json), ("receipt_ref", l.receiptRef.json),
    ("receipt_digest", l.receiptDigest.json), ("invocation_id", l.invocationId.json)]

structure Reads (l : ContextReceiptLink) (v : Json) : Prop where
  keys : v.hasExactly ["schema_version", "receipt_id", "receipt_ref", "receipt_digest", "invocation_id"] = true
  schema : v.get "schema_version" = .int 1
  receiptId : v.get "receipt_id" = l.receiptId.json
  receiptRef : v.get "receipt_ref" = l.receiptRef.json
  receiptDigest : v.get "receipt_digest" = l.receiptDigest.json
  invocationId : v.get "invocation_id" = l.invocationId.json

/-- A link names its own digest and an invocation. -/
structure Links (l : ContextReceiptLink) (invocationId : Str) : Prop where
  digest : l.receiptRef.1 = Str.lit "receipt:" ++ l.receiptDigest.1
  invocation : l.invocationId.1 = invocationId

def parseFields (invocationId : Str) (v : Json) : Except InstanceError ContextReceiptLink := do
  ensure (v.isObj = true) (.protocol "receipt_link must be an object or null")
  exactKeys v ["schema_version", "receipt_id", "receipt_ref", "receipt_digest", "invocation_id"] "receipt_link"
  let digest ← Instance.optionalDigest (v.get "receipt_digest") "receipt_link.receipt_digest"
  let receiptRef ← requiredRef (v.get "receipt_ref") "receipt_link.receipt_ref"
  let receiptDigest ← required digest "receipt_link.receipt_digest is required"
  ensure (receiptRef.1 = Str.lit "receipt:" ++ receiptDigest.1) (.protocol "receipt_link.receipt_ref does not match digest")
  ensure (v.get "invocation_id" = .str invocationId) (.protocol "receipt_link invocation binding mismatch")
  let schema ← int (v.get "schema_version") "receipt_link.schema_version"
  let receiptId ← requiredRef (v.get "receipt_id") "receipt_link.receipt_id"
  let invocationId ← string (v.get "invocation_id") "receipt_link.invocation_id" maxRefBytes
  ensure (schema = 1) (.protocol "receipt link schema_version must be 1")
  let invocationId ← catching (protocolText invocationId.1 "invocation_id" 512) .protocol
  .ok ⟨receiptId, receiptRef, receiptDigest, invocationId⟩

/-- `_parse_receipt_link(value, invocation_id)`. -/
def parse (invocationId : Str) : Json → Except InstanceError (Option ContextReceiptLink) := nullable (parseFields invocationId)

theorem isString_of_isText {max : Nat} {s : Str} (h : isText max s = true) : isString max s = true := by
  simp only [isText, Bool.and_eq_true, List.all_eq_true, decide_eq_true_eq] at h
  obtain ⟨⟨⟨hscalar, -⟩, hlength⟩, hcontrol⟩ := h
  have hnul : s.contains 0 = false := by
    rw [Bool.eq_false_iff, ne_eq, List.contains_iff_mem]
    intro hmem
    exact absurd (hcontrol 0 hmem) (by decide)
  simp only [isString, Bool.and_eq_true, List.all_eq_true, decide_eq_true_eq, hnul]
  exact ⟨⟨hscalar, hlength⟩, rfl⟩

theorem parseFields_eq_ok {invocationId : Str} {v : Json} {l : ContextReceiptLink} :
    parseFields invocationId v = .ok l ↔ l.Reads v ∧ l.Links invocationId := by
  simp only [parseFields, bind_eq_ok, ensure_eq_ok, exactKeys_eq_ok, exists_const, optionalDigest_eq_ok, requiredRef_eq_ok,
    required_eq_ok, int_eq_ok, string_eq_ok, catching_eq_ok, protocolText_eq_ok, Except.ok.injEq]
  constructor
  · rintro ⟨-, hkeys, o, hdigest, r, href, d, rfl, hlink, hinvocation, n, hschema, i, hid, s, hs, rfl, t, ht, rfl⟩
    have htext : v.get "invocation_id" = t.json := hs.trans (congrArg Json.str ht.symm)
    exact ⟨⟨hkeys, hschema, hid, href, hdigest, htext⟩, hlink, Json.str.inj (htext.symm.trans hinvocation)⟩
  · rintro ⟨⟨hkeys, hschema, hid, href, hdigest, htext⟩, hlink, hinvocation⟩
    exact ⟨isObj_of_hasExactly hkeys, hkeys, some l.receiptDigest, hdigest, l.receiptRef, href, l.receiptDigest, rfl, hlink,
      htext.trans (congrArg Json.str hinvocation), 1, hschema, l.receiptId, hid, ⟨l.invocationId.1, isString_of_isText l.invocationId.2⟩,
      htext, rfl, l.invocationId, rfl, rfl⟩

theorem parse_eq_ok {invocationId : Str} {v : Json} {o : Option ContextReceiptLink} :
    parse invocationId v = .ok o ↔ ReadsOption (fun l v => l.Reads v ∧ l.Links invocationId) o v := by
  have hfields : ∀ (v : Json) (l : ContextReceiptLink), parseFields invocationId v = .ok l ↔ l.Reads v ∧ l.Links invocationId :=
    fun _ _ => parseFields_eq_ok
  exact nullable_eq_ok hfields fun l h => Bool.false_ne_true h.1.keys

theorem reads_toDict (l : ContextReceiptLink) : l.Reads l.toDict where
  keys := Json.hasExactly_mkObj_self _
  schema := Json.get_mkObj _ _
  receiptId := Json.get_mkObj _ _
  receiptRef := Json.get_mkObj _ _
  receiptDigest := Json.get_mkObj _ _
  invocationId := Json.get_mkObj _ _

end ContextReceiptLink

end LeanCtx
