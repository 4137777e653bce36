import LeanCtx.Session.Response
import LeanCtx.Python.Raises

/-! The exceptions of `_parse_response`: which documents make it raise one that is none of the SDK's. -/

namespace LeanCtx

open Instance

/-- `InstanceProtocolError`, `CompatibilityError` or `UnsupportedInstanceError`. -/
def InstanceError.IsTyped : InstanceError → Prop
  | .protocol _ => True
  | .compatibility _ => True
  | .unsupported _ => True
  | _ => False

theorem InstanceError.isTyped_protocol (m : String) : (protocol m).IsTyped := trivial

/-- A list or an object, which Python cannot hash. -/
def Json.IsContainer : Json → Prop
  | .arr _ => True
  | .obj _ => True
  | _ => False

namespace Instance

section
variable {α : Type}

/-- The exceptions that no caller of the SDK expects. -/
def Untyped (e : InstanceError) : Prop := ¬e.IsTyped

@[simp] theorem not_untyped_protocol (m : String) : ¬Untyped (.protocol m) := not_not_intro trivial

@[simp] theorem not_untyped_compatibility (m : String) : ¬Untyped (.compatibility m) := not_not_intro trivial

@[simp] theorem not_untyped_unsupported (m : String) : ¬Untyped (.unsupported m) := not_not_intro trivial

@[simp] theorem untyped_typeError : Untyped .typeError := not_false

theorem not_raises_ensure {c : Prop} [Decidable c] {e : InstanceError} (he : ¬Untyped e) : ¬Raises Untyped (ensure c e) :=
  fun h => he (raises_ensure.mp h).2

theorem not_raises_stringOf {p : Str → Bool} {message : Json → String} {v : Json} : ¬Raises Untyped (stringOf p message v) := by
  unfold stringOf
  split
  · split_ifs <;> simp
  · simp

theorem raises_nullable {P : InstanceError → Prop} {f : Json → Except InstanceError α} {v : Json} :
    Raises P (nullable f v) ↔ v ≠ .null ∧ Raises P (f v) := by
  by_cases hv : v = .null
  · subst hv
    exact iff_of_false nofun fun h => h.1 rfl
  · rw [nullable_of_ne_null hv, raises_map]
    exact (and_iff_right hv).symm

theorem not_raises_required {o : Option α} {message : String} : ¬Raises Untyped (required o message) := by
  cases o <;> simp [required]

/-- Membership in a set of names is what raises a `TypeError`. -/
theorem raises_member {all : List α} {name : α → String} {message : String} {v : Json} :
    Raises Untyped (member all name message v) ↔ v.IsContainer := by
  unfold member
  split
  · split <;> simp [Json.IsContainer]
  · simp [Json.IsContainer]
  · simp [Json.IsContainer]
  · next hstr harr hobj =>
    refine iff_of_false (by simp) ?_
    cases v with
    | arr l => exact absurd rfl (harr l)
    | obj f => exact absurd rfl (hobj f)
    | _ => exact not_false

theorem not_raises_int {v : Json} {field : String} : ¬Raises Untyped (int v field) := by
  unfold int
  split <;> simp

theorem not_raises_string {v : Json} {field : String} {max : Nat} : ¬Raises Untyped (string v field max) := not_raises_stringOf

theorem not_raises_requiredRef {v : Json} {field : String} : ¬Raises Untyped (requiredRef v field) := not_raises_stringOf

theorem not_raises_optionalDigest {v : Json} {field : String} : ¬Raises Untyped (Instance.optionalDigest v field) :=
  fun h => not_raises_stringOf (raises_nullable.mp h).2

theorem not_raises_optionalOutputRef {v : Json} {field : String} : ¬Raises Untyped (optionalOutputRef v field) :=
  fun h => not_raises_stringOf (raises_nullable.mp h).2

theorem not_raises_lineage {v : Json} {field : String} : ¬Raises Untyped (lineage v field) := by
  unfold lineage
  split
  · split_ifs
    · rw [raises_bind, raises_mapM]
      rintro (⟨_, _, _, -, -, hraises⟩ | ⟨refs, -, hraises⟩)
      · exact not_raises_requiredRef hraises
      · split_ifs at hraises <;> simp at hraises
    · simp
  · simp

theorem not_raises_validatePair {r : Option OutputRef} {d : Option Digest} {label : String} :
    ¬Raises Untyped (validatePair r d label) := by
  cases r with
  | none => simp [validatePair]
  | some r =>
    cases d with
    | none => simp [validatePair]
    | some d => exact not_raises_ensure (not_untyped_protocol _)

theorem not_raises_exactKeys {v : Json} {keys : List String} {label : String} : ¬Raises Untyped (exactKeys v keys label) :=
  not_raises_ensure (not_untyped_protocol _)

end

end Instance

/-! ### Where a reader meets a value that it cannot hash -/

/-- A measurement the checks before that of its classification accept, and the classification of which is a list or an object. -/
structure ContextMeasurement.Unhashable (v : Json) : Prop where
  keys : v.hasExactly ["name", "unit", "classification", "value"] = true
  name : ∃ s, v.get "name" = .str s ∧ isAsciiName s = true
  unit : ∃ s, v.get "unit" = .str s ∧ isAsciiName s = true
  classification : (v.get "classification").IsContainer

/-- A failure the code of which is a list or an object. -/
structure ContextFailure.Unhashable (v : Json) : Prop where
  keys : v.hasExactly ["code", "retryable_by_host", "recovery_ref"] = true
  code : (v.get "code").IsContainer

/-- An invocation the checks before that of the decision accept, and the decision of which is a list or an object. -/
structure EngineInvocation.Unhashable (v : Json) : Prop where
  keys : v.hasExactly EngineInvocation.keys = true
  engineKeys : (v.get "engine").hasExactly ["engine_id", "engine_version"] = true
  operationKeys : (v.get "operation").hasExactly ["capability_id", "capability_version"] = true
  policyKeys : (v.get "policy_admission").hasExactly ["policy_ref", "decision"] = true
  engineId : (v.get "engine").get "engine_id" = .str engineId
  engineVersion : ∃ s, (v.get "engine").get "engine_version" = .str s ∧ isString maxRefBytes s = true ∧ isSemver s = true ∧
    semverMajor s = 3
  capabilityId : (v.get "operation").get "capability_id" = .str capabilityId
  capabilityVersion : (v.get "operation").get "capability_version" = .str "1.0.0"
  decision : ((v.get "policy_admission").get "decision").IsContainer

namespace EngineObservation

/-- The fields of an observation of an invocation that are read before its status. -/
structure Headed (invocationId : Str) (v : Json) : Prop where
  keys : v.hasBetween required keys = true
  bound : v.get "invocation_id" = .str invocationId
  schema : v.get "schema_version" = .int 1

/-- The fields of an observation that are read from its status to its sources. -/
structure Sourced (v : Json) : Prop where
  status : ∃ s : InstanceStatus, v.get "status" = .str s.name
  output : ∃ (r : Option OutputRef) (d : Option Digest), v.get "output_ref" = optional outputJson r ∧
    v.get "output_digest" = optional Digest.json d ∧ Paired r d
  sources : ∃ l : Instance.Lineage, v.get "source_lineage" = Lineage.json l

/-- Where the reader of an observation meets a list or an object that it cannot hash: as the status, as the classification of a
    measurement, or as the code of the failure. -/
inductive Unhashable (invocationId : Str) (v : Json) : Prop
  | status (headed : Headed invocationId v) (status : (v.get "status").IsContainer)
  | measurement (headed : Headed invocationId v) (sourced : Sourced v) (before : List Json) (m : Json) (after : List Json)
      (list : v.get "measurements" = .arr (before ++ m :: after)) (bounded : (before ++ m :: after).length ≤ maxMeasurements)
      (earlier : ∀ w ∈ before, ∃ x : ContextMeasurement, x.Reads w) (classification : ContextMeasurement.Unhashable m)
  | failure (headed : Headed invocationId v) (sourced : Sourced v) (l : List Json) (list : v.get "measurements" = .arr l)
      (bounded : l.length ≤ maxMeasurements) (measured : ∀ w ∈ l, ∃ x : ContextMeasurement, x.Reads w)
      (code : ContextFailure.Unhashable (v.get "failure"))

end EngineObservation

namespace InstanceResponse

/-- The versions, the view and the recovery of a response, which are read before its records. -/
structure Headed (v : Json) : Prop where
  keys : v.hasExactly keys = true
  schema : v.get "schema_version" = .int 1
  transport : v.get "transport_version" = .int 1
  engineInterface : v.get "engine_interface_version" = .str engineInterfaceVersion
  view : ∃ x : InstanceView, x.Reads (v.get "view") ∧ x.Bound
  recovery : ∃ x : InstanceRecovery, x.Reads (v.get "recovery")
  records : v.get "invocation" ≠ .null ∧ v.get "observation" ≠ .null

/-- Where the reader of a response meets a list or an object that it cannot hash: as the decision of the policy, or in the
    observation. -/
inductive Unhashable (v : Json) : Prop
  | invocation (headed : Headed v) (decision : EngineInvocation.Unhashable (v.get "invocation"))
  | observation (headed : Headed v) (i : EngineInvocation) (reads : i.Reads (v.get "invocation")) (supported : i.Supported)
      (observed : EngineObservation.Unhashable i.invocationId.1 (v.get "observation"))

end InstanceResponse

/-! ### Exactly there it raises -/

theorem ContextMeasurement.raises_parse {v : Json} : Raises Untyped (ContextMeasurement.parse v) ↔ Unhashable v := by
  simp only [parse, make, raises_bind, ensure_eq_ok, exactKeys_eq_ok, exists_const, stringOf_eq_ok, raises_member,
    member_eq_ok Classification.mem_all Classification.name_injective, not_raises_exactKeys, not_raises_stringOf, false_or,
    raises_ensure, not_untyped_protocol, and_false]
  constructor
  · rintro ⟨-, hkeys, a, hname, b, hunit, hclass | ⟨c, -, hraises⟩⟩
    · exact ⟨hkeys, ⟨a.1, hname, a.2⟩, ⟨b.1, hunit, b.2⟩, hclass⟩
    · exfalso
      split_ifs at hraises
      · exact raises_ok _ hraises
      · exact not_untyped_protocol _ (raises_error.mp hraises)
      · split at hraises
        · split_ifs at hraises
          · exact raises_ok _ hraises
          · exact not_untyped_protocol _ (raises_error.mp hraises)
        · exact not_untyped_protocol _ (raises_error.mp hraises)
  · rintro ⟨hkeys, ⟨s, hname, hs⟩, ⟨t, hunit, ht⟩, hclass⟩
    exact ⟨isObj_of_hasExactly hkeys, hkeys, ⟨s, hs⟩, hname, ⟨t, ht⟩, hunit, .inl hclass⟩

theorem ContextFailure.raises_parse {v : Json} : Raises Untyped (ContextFailure.parse v) ↔ Unhashable v := by
  rw [parse, raises_nullable]
  simp only [parseFields, raises_bind, ensure_eq_ok, exactKeys_eq_ok, exists_const, raises_member, raises_nullable,
    member_eq_ok FailureCode.mem_all FailureCode.name_injective, not_raises_exactKeys, not_raises_requiredRef, false_or,
    raises_ensure, not_untyped_protocol, and_false]
  constructor
  · rintro ⟨-, -, hkeys, hcode | ⟨c, -, o, -, hraises⟩⟩
    · exact ⟨hkeys, hcode⟩
    · exfalso
      split at hraises
      · exact raises_ok _ hraises
      · exact not_untyped_protocol _ (raises_error.mp hraises)
  · rintro ⟨hkeys, hcode⟩
    refine ⟨?_, isObj_of_hasExactly hkeys, hkeys, .inl hcode⟩
    rintro rfl
    cases hkeys

theorem ContextReceiptLink.not_raises_parse {invocationId : Str} {v : Json} :
    ¬Raises Untyped (ContextReceiptLink.parse invocationId v) := by
  rw [parse, raises_nullable]
  simp only [parseFields, raises_bind, raises_ensure, raises_catching, raises_ok, not_raises_exactKeys, not_raises_optionalDigest,
    not_raises_requiredRef, not_raises_required, not_raises_int, not_raises_string, not_untyped_protocol, not_raises_false, and_false,
    or_false, exists_false, not_false_eq_true]

theorem EngineInvocation.raises_parse {v : Json} : Raises Untyped (EngineInvocation.parse v) ↔ Unhashable v := by
  simp only [parse, raises_bind, raises_ensure, raises_ok, ensure_eq_ok, exactKeys_eq_ok, exists_const, string_eq_ok, raises_member,
    member_eq_ok PolicyDecision.mem_all PolicyDecision.name_injective, not_raises_exactKeys, not_raises_optionalDigest,
    not_raises_requiredRef, not_raises_required, not_raises_int, not_raises_string, not_raises_lineage, not_untyped_protocol,
    not_untyped_unsupported, and_false, false_or, or_false, exists_false]
  constructor
  · rintro ⟨-, hkeys, -, hengine, hoperation, hpolicy, id, hid, e, hversion, ⟨hid', hsemver⟩, hmajor, c, hcapability, cv, hcv,
      ⟨hc, hcv'⟩, hdecision⟩
    exact ⟨hkeys, hengine, hoperation, hpolicy, hid.trans (congrArg _ hid'), ⟨e.1, hversion, e.2, hsemver, hmajor⟩,
      hcapability.trans (congrArg _ hc), hcv.trans (congrArg _ hcv'), hdecision⟩
  · intro h
    obtain ⟨s, hversion, hs, hsemver, hmajor⟩ := h.engineVersion
    exact ⟨isObj_of_hasExactly h.keys, h.keys,
      ⟨isObj_of_hasExactly h.engineKeys, isObj_of_hasExactly h.operationKeys, isObj_of_hasExactly h.policyKeys⟩,
      h.engineKeys, h.operationKeys, h.policyKeys, ⟨engineId, by decide⟩, h.engineId, ⟨s, hs⟩, hversion, ⟨rfl, hsemver⟩, hmajor,
      ⟨capabilityId, by decide⟩, h.capabilityId, ⟨"1.0.0", by decide⟩, h.capabilityVersion, ⟨rfl, rfl⟩, h.decision⟩

theorem InstanceView.not_raises_parse {v : Json} : ¬Raises Untyped (InstanceView.parse v) := by
  simp only [parse, raises_bind, raises_ensure, raises_ok, not_raises_exactKeys, not_raises_optionalDigest,
    not_raises_optionalOutputRef, not_raises_string, not_raises_validatePair, not_untyped_protocol, and_false, or_false,
    exists_false, not_false_eq_true]

theorem InstanceRecovery.not_raises_parse {v : Json} : ¬Raises Untyped (InstanceRecovery.parse v) := by
  simp only [parse, raises_bind, raises_ensure, raises_ok, not_raises_exactKeys, not_raises_optionalDigest, not_raises_requiredRef,
    not_raises_required, not_untyped_protocol, and_false, or_false, exists_false, not_false_eq_true]

namespace EngineObservation

theorem raises_measurementList {v : Json} : Raises Untyped (measurementList v) ↔ ∃ before m after, v = .arr (before ++ m :: after) ∧
    (before ++ m :: after).length ≤ maxMeasurements ∧ (∀ w ∈ before, ∃ x : ContextMeasurement, x.Reads w) ∧
      ContextMeasurement.Unhashable m := by
  unfold measurementList
  split
  · next l =>
    simp only [raises_ite, raises_error, not_untyped_protocol, and_false, or_false, raises_mapM, Returns,
      ContextMeasurement.parse_eq_ok, ContextMeasurement.raises_parse, Json.arr.injEq]
    constructor
    · rintro ⟨hlength, before, m, after, rfl, hbefore, hm⟩
      exact ⟨before, m, after, rfl, hlength, hbefore, hm⟩
    · rintro ⟨before, m, after, rfl, hlength, hbefore, hm⟩
      exact ⟨hlength, before, m, after, rfl, hbefore, hm⟩
  · next hv =>
    refine iff_of_false (by simp) ?_
    rintro ⟨before, m, after, rfl, -⟩
    exact hv _ rfl

theorem exists_reads {l : List Json} (h : ∀ w ∈ l, ∃ x : ContextMeasurement, x.Reads w) :
    ∃ m, List.Forall₂ (fun v m => ContextMeasurement.Reads m v) l m := by
  induction l with
  | nil => exact ⟨[], .nil⟩
  | cons w l ih =>
    obtain ⟨⟨x, hx⟩, hl⟩ := List.forall_mem_cons.mp h
    obtain ⟨m, hm⟩ := ih hl
    exact ⟨x :: m, .cons hx hm⟩

theorem reads_of_forall₂ {l : List Json} {m : List ContextMeasurement} (h : List.Forall₂ (fun v m => ContextMeasurement.Reads m v) l m) :
    ∀ w ∈ l, ∃ x : ContextMeasurement, x.Reads w := by
  induction h with
  | nil => nofun
  | cons hx _ ih => exact List.forall_mem_cons.mpr ⟨⟨_, hx⟩, ih⟩

theorem raises_parse {v : Json} {invocationId : BoundedString maxRefBytes} :
    Raises Untyped (parse v invocationId.1) ↔ Unhashable invocationId.1 v := by
  simp only [parse, raises_bind, raises_ensure, raises_ok, ensure_eq_ok, exists_const, string_eq_ok, int_eq_ok, optionalDigest_eq_ok,
    optionalOutputRef_eq_ok, validatePair_eq_ok, lineage_eq_ok, measurementList_eq_ok, raises_member, raises_measurementList,
    ContextFailure.raises_parse, member_eq_ok InstanceStatus.mem_all InstanceStatus.name_injective, not_raises_optionalDigest,
    not_raises_optionalOutputRef, not_raises_validatePair, not_raises_int, not_raises_string, not_raises_lineage,
    ContextReceiptLink.not_raises_parse, not_untyped_protocol, and_false, false_or, or_false]
  constructor
  · rintro ⟨-, hkeys, i, hinvocation, hbound, z, hschema, rfl, hstatus | ⟨t, hstatus, r, href, d, hdigest, hpaired, l, hlineage,
      ⟨before, m, after, hlist, hlength, hbefore, hm⟩ | ⟨m, ⟨⟨list, hlist, hread⟩, hlength⟩, hfailure⟩⟩⟩
    · exact .status ⟨hkeys, hinvocation.trans (congrArg _ hbound), hschema⟩ hstatus
    · exact .measurement ⟨hkeys, hinvocation.trans (congrArg _ hbound), hschema⟩
        ⟨⟨t, hstatus⟩, ⟨r, d, href, hdigest, hpaired⟩, ⟨l, hlineage⟩⟩ before m after hlist hlength hbefore hm
    · exact .failure ⟨hkeys, hinvocation.trans (congrArg _ hbound), hschema⟩
        ⟨⟨t, hstatus⟩, ⟨r, d, href, hdigest, hpaired⟩, ⟨l, hlineage⟩⟩ list hlist (hread.length_eq ▸ hlength) (reads_of_forall₂ hread)
        hfailure
  · rintro (⟨⟨hkeys, hbound, hschema⟩, hstatus⟩ |
      ⟨⟨hkeys, hbound, hschema⟩, ⟨⟨t, ht⟩, ⟨r, d, href, hdigest, hpaired⟩, l, hl⟩, before, m, after, hlist, hlength, hbefore, hm⟩ |
      ⟨⟨hkeys, hbound, hschema⟩, ⟨⟨t, ht⟩, ⟨r, d, href, hdigest, hpaired⟩, l, hl⟩, list, hlist, hlength, hmeasured, hcode⟩)
    · exact ⟨Json.isObj_of_hasBetween hkeys, hkeys, invocationId, hbound, rfl, 1, hschema, rfl, .inl hstatus⟩
    · exact ⟨Json.isObj_of_hasBetween hkeys, hkeys, invocationId, hbound, rfl, 1, hschema, rfl,
        .inr ⟨t, ht, r, href, d, hdigest, hpaired, l, hl, .inl ⟨before, m, after, hlist, hlength, hbefore, hm⟩⟩⟩
    · obtain ⟨m, hread⟩ := exists_reads hmeasured
      exact ⟨Json.isObj_of_hasBetween hkeys, hkeys, invocationId, hbound, rfl, 1, hschema, rfl,
        .inr ⟨t, ht, r, href, d, hdigest, hpaired, l, hl, .inr ⟨m, ⟨⟨list, hlist, hread⟩, hread.length_eq ▸ hlength⟩, hcode⟩⟩⟩

end EngineObservation

namespace InstanceResponse

theorem raises_parseRecords {invocation observation : Json} {view : InstanceView} :
    Raises Untyped (parseRecords invocation observation view) ↔ (invocation ≠ .null ∧ observation ≠ .null) ∧
      (EngineInvocation.Unhashable invocation ∨ ∃ i : EngineInvocation, (i.Reads invocation ∧ i.Supported) ∧
        EngineObservation.Unhashable i.invocationId.1 observation) := by
  simp only [parseRecords, raises_ite, raises_bind, raises_ensure, raises_ok, not_untyped_protocol, and_false, or_false, false_or,
    exists_false, EngineInvocation.raises_parse, EngineInvocation.parse_eq_ok, not_or, ne_eq]
  refine and_congr_right fun _ => or_congr_right (exists_congr fun i => and_congr_right fun _ => ?_)
  exact EngineObservation.raises_parse

/-- The reader of a document raises an untyped exception exactly where it meets a value that it cannot hash. -/
theorem raises_parseDocument {v : Json} : Raises Untyped (parseDocument v) ↔ Unhashable v := by
  simp only [parseDocument, raises_bind, raises_ensure, raises_ok, ensure_eq_ok, exactKeys_eq_ok, exists_const, int_eq_ok,
    InstanceView.parse_eq_ok, InstanceRecovery.parse_eq_ok, raises_parseRecords, not_raises_exactKeys, not_raises_int,
    InstanceView.not_raises_parse, InstanceRecovery.not_raises_parse, not_untyped_compatibility, and_false, false_or, or_false]
  constructor
  · rintro ⟨hkeys, n, hschema, rfl, t, htransport, rfl, hinterface, w, hview, y, hrecovery, hrecords, hraises⟩
    have hheaded : Headed v := ⟨hkeys, hschema, htransport, hinterface, ⟨w, hview⟩, ⟨y, hrecovery⟩, hrecords⟩
    rcases hraises with hinvocation | ⟨i, ⟨hreads, hsupported⟩, hobserved⟩
    · exact .invocation hheaded hinvocation
    · exact .observation hheaded i hreads hsupported hobserved
  · rintro (⟨h, hinvocation⟩ | ⟨h, i, hreads, hsupported, hobserved⟩)
    · obtain ⟨w, hview⟩ := h.view
      obtain ⟨y, hrecovery⟩ := h.recovery
      exact ⟨h.keys, 1, h.schema, rfl, 1, h.transport, rfl, h.engineInterface, w, hview, y, hrecovery, h.records, .inl hinvocation⟩
    · obtain ⟨w, hview⟩ := h.view
      obtain ⟨y, hrecovery⟩ := h.recovery
      exact ⟨h.keys, 1, h.schema, rfl, 1, h.transport, rfl, h.engineInterface, w, hview, y, hrecovery, h.records,
        .inr ⟨i, ⟨hreads, hsupported⟩, hobserved⟩⟩

end InstanceResponse

/-! ### The reader of the bytes -/

/-- An exception of `_parse_response`: one that its readers raise, or the `RecursionError` of Python's decoder. -/
inductive ResponseError
  | raised (e : InstanceError)
  | recursion
deriving DecidableEq

def ResponseError.IsTyped : ResponseError → Prop
  | .raised e => e.IsTyped
  | .recursion => False

namespace InstanceResponse

/-- `_parse_response(raw)` on an interpreter the decoder of which runs out of stack on the texts that are `deep`: `strict_json_loads`
    does not catch the `RecursionError`. -/
def parseResponse (deep : Bytes → Bool) (raw : Bytes) : Except ResponseError InstanceResponse := do
  ensure (raw.length ≤ maxResponseBytes) (.raised (.protocol "Instance response exceeds the bound"))
  ensure (deep raw = false) .recursion
  catching (parse raw) .raised

theorem raises_parse {raw : Bytes} : Raises Untyped (parse raw) ↔
    raw.length ≤ maxResponseBytes ∧ ∃ v, Json.strictLoads? raw = some v ∧ Unhashable v := by
  rw [parse, raises_bind, or_iff_right (not_raises_ensure (not_untyped_protocol _))]
  simp only [ensure_eq_ok, exists_const]
  refine and_congr_right fun _ => ?_
  cases Json.strictLoads? raw with
  | none => simp
  | some v =>
    simp only [Option.some.injEq, exists_eq_left']
    exact raises_parseDocument

/-- A response within the bound is read to a value or to a typed exception exactly if it is not nested too deep, and no value that
    cannot be hashed stands where a name is looked up. -/
theorem parseResponse_total {deep : Bytes → Bool} {raw : Bytes} :
    Returns (parseResponse deep raw) ∨ Raises ResponseError.IsTyped (parseResponse deep raw) ↔
      (raw.length ≤ maxResponseBytes → deep raw = false ∧ ∀ v, Json.strictLoads? raw = some v → ¬Unhashable v) := by
  rw [returns_or_raises_iff]
  simp only [parseResponse, raises_bind, raises_ensure, raises_catching, ensure_eq_ok, exists_const, ResponseError.IsTyped,
    InstanceError.isTyped_protocol, not_true_eq_false, not_false_eq_true, and_true, and_false, false_or]
  have hparse : Raises (fun e => ¬e.IsTyped) (parse raw) ↔ _ := raises_parse
  rw [hparse]
  constructor
  · intro h hlength
    have hdeep : deep raw = false := by
      by_contra hne
      exact h ⟨hlength, .inl hne⟩
    exact ⟨hdeep, fun v hv hunhashable => h ⟨hlength, .inr ⟨hdeep, hlength, v, hv, hunhashable⟩⟩⟩
  · rintro h ⟨hlength, hdeep | ⟨-, -, v, hv, hunhashable⟩⟩
    · exact hdeep (h hlength).1
    · exact (h hlength).2 v hv hunhashable

end InstanceResponse

namespace UnhashableSample
open Json

def invocation : Json :=
  mkObj [("engine", mkObj [("engine_id", .str engineId), ("engine_version", .str "3.0.0")]), ("input_digest", .null),
    ("input_ref", .null), ("invocation_id", .null),
    ("operation", mkObj [("capability_id", .str capabilityId), ("capability_version", .str "1.0.0")]),
    ("policy_admission", mkObj [("decision", .arr []), ("policy_ref", .null)]), ("schema_version", .null), ("source_refs", .null)]

/-- A response the policy decision of which is the empty list. -/
def response : Json :=
  mkObj [("engine_interface_version", .str "1.0.0"), ("invocation", invocation), ("observation", .bool true),
    ("recovery", mkObj [("recovery_ref", .str "r"), ("source_digest", .str (Str.lit "sha256:" ++ List.replicate 64 48)), ("source_ref", .str "s")]),
    ("schema_version", .int 1), ("transport_version", .int 1),
    ("view", mkObj [("output_digest", .null), ("output_ref", .null), ("text", .str "")])]

theorem parseDocument_response : InstanceResponse.parseDocument response = .error .typeError := by decide

end UnhashableSample

open UnhashableSample in
theorem not_parseResponse_total : ¬∀ (deep : Bytes → Bool) (raw : Bytes), Returns (InstanceResponse.parseResponse deep raw) ∨
    Raises ResponseError.IsTyped (InstanceResponse.parseResponse deep raw) := by
  intro h
  have hwritable : response.canonicalBytes?.all (·.length ≤ InstanceResponse.maxResponseBytes) = true := by decide +kernel
  have hsome : response.canonicalBytes?.isSome = true := by decide +kernel
  obtain ⟨raw, hraw⟩ := Option.isSome_iff_exists.mp hsome
  have hload : Json.strictLoads? raw = some response := (Json.strictLoads?_canonical hraw).trans (by decide)
  have hlength : raw.length ≤ InstanceResponse.maxResponseBytes := by simpa [hraw] using hwritable
  have hparse : InstanceResponse.parseResponse (fun _ => false) raw = .error (.raised .typeError) := by
    rw [InstanceResponse.parseResponse, ensure_true hlength, ok_bind, ensure_true rfl, ok_bind, InstanceResponse.parse,
      ensure_true hlength, ok_bind, hload]
    exact congrArg (catching · ResponseError.raised) parseDocument_response
  rcases h (fun _ => false) raw with ⟨x, hx⟩ | ⟨e, he, htyped⟩
  · rw [hparse] at hx
    cases hx
  · rw [hparse] at he
    cases he
    exact htyped

end LeanCtx
