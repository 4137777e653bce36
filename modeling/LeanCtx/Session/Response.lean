import LeanCtx.Session.Instance
import LeanCtx.Json.RoundTrip

/-! The records of a response and the view that a client makes of them: `_parse_response`, `context_view` and `_build_view`. -/

namespace LeanCtx

open Instance

/-! ### Invocations -/

inductive PolicyDecision
  | admitted
  | rejected
deriving DecidableEq

namespace PolicyDecision

def name : PolicyDecision → String
  | .admitted => "admitted"
  | .rejected => "rejected"

def all : List PolicyDecision := [.admitted, .rejected]

theorem mem_all (d : PolicyDecision) : d ∈ all := by cases d <;> simp [all]

theorem name_injective : Function.Injective name := by
  intro a b h
  cases a <;> cases b <;> first | rfl | exact absurd h (by decide)

end PolicyDecision

/-- `_SEMVER_RE.fullmatch(value)`. -/
def isSemver (s : Str) : Bool :=
  (s.splitOn 46).length == 3 && (s.splitOn 46).all fun part => !part.isEmpty && part.all fun c => 48 ≤ c && c ≤ 57

/-- `int(value.split(".", 1)[0])` of a version. -/
def semverMajor (s : Str) : Nat := ((s.splitOn 46).headD []).foldl (fun n c => 10 * n + (c - 48)) 0

def engineId : String := "lean-ctx-local"

def capabilityId : String := "capability://leanctx/context-optimization"

/-- The invocation of a response: which engine ran which operation over which sources, and what the policy decided. -/
structure EngineInvocation where
  invocationId : BoundedString 512
  engineVersion : BoundedString 512
  inputRef : Ref 512
  inputDigest : Digest
  sourceRefs : Lineage
  policyRef : Ref 512
  decision : PolicyDecision
deriving DecidableEq

namespace EngineInvocation

def keys : List String :=
  ["schema_version", "invocation_id", "engine", "operation", "input_ref", "input_digest", "source_refs", "policy_admission"]

def engine (i : EngineInvocation) : Json :=
  Json.mkObj [("engine_id", .str engineId), ("engine_version", .str i.engineVersion.1)]

def operation : Json := Json.mkObj [("capability_id", .str capabilityId), ("capability_version", .str "1.0.0")]

def policyAdmission (i : EngineInvocation) : Json :=
  Json.mkObj [("policy_ref", i.policyRef.json), ("decision", .str i.decision.name)]

def toDict (i : EngineInvocation) : Json :=
  Json.mkObj [("schema_version", .int 1), ("invocation_id", .str i.invocationId.1), ("engine", i.engine), ("operation", operation),
    ("input_ref", i.inputRef.json), ("input_digest", i.inputDigest.json), ("source_refs", Lineage.json i.sourceRefs),
    ("policy_admission", i.policyAdmission)]

/-- `_parse_invocation(value)`. -/
def parse (v : Json) : Except InstanceError EngineInvocation := do
  ensure (v.isObj = true) (.protocol "invocation must be an object or null")
  exactKeys v keys "invocation"
  let engine := v.get "engine"
  let operation := v.get "operation"
  let policy := v.get "policy_admission"
  ensure (engine.isObj = true ∧ operation.isObj = true ∧ policy.isObj = true) (.protocol "invocation nested records must be objects")
  exactKeys engine ["engine_id", "engine_version"] "invocation.engine"
  exactKeys operation ["capability_id", "capability_version"] "invocation.operation"
  exactKeys policy ["policy_ref", "decision"] "invocation.policy_admission"
  let id ← string (engine.get "engine_id") "invocation.engine.engine_id" maxRefBytes
  let engineVersion ← string (engine.get "engine_version") "invocation.engine.engine_version" maxRefBytes
  ensure (id.1 = Str.lit engineId ∧ isSemver engineVersion.1 = true) (.unsupported "unsupported instance identity")
  ensure (semverMajor engineVersion.1 = 3) (.unsupported "unsupported instance major version")
  let capability ← string (operation.get "capability_id") "invocation.operation.capability_id" maxRefBytes
  let version ← string (operation.get "capability_version") "invocation.operation.capability_version" maxRefBytes
  ensure (capability.1 = Str.lit capabilityId ∧ version.1 = Str.lit "1.0.0") (.unsupported "unsupported instance capability")
  let decision ← member PolicyDecision.all PolicyDecision.name "unknown policy decision" (policy.get "decision")
  let policyRef ← requiredRef (policy.get "policy_ref") "invocation.policy_admission.policy_ref"
  let invocationId ← string (v.get "invocation_id") "invocation.invocation_id" maxRefBytes
  let schema ← int (v.get "schema_version") "invocation.schema_version"
  ensure (schema = 1) (.protocol "unsupported invocation schema version")
  let inputRef ← requiredRef (v.get "input_ref") "invocation.input_ref"
  let digest ← Instance.optionalDigest (v.get "input_digest") "invocation.input_digest"
  let inputDigest ← required digest "invocation.input_digest is required"
  let sourceRefs ← lineage (v.get "source_refs") "invocation.source_refs"
  ensure (inputRef ∈ sourceRefs.1) (.protocol "invocation input_ref is not in source_refs")
  .ok ⟨invocationId, engineVersion, inputRef, inputDigest, sourceRefs, policyRef, decision⟩

/-- What an invocation is written as. -/
structure Reads (i : EngineInvocation) (v : Json) : Prop where
  keys : v.hasExactly keys = true
  engineKeys : (v.get "engine").hasExactly ["engine_id", "engine_version"] = true
  operationKeys : (v.get "operation").hasExactly ["capability_id", "capability_version"] = true
  policyKeys : (v.get "policy_admission").hasExactly ["policy_ref", "decision"] = true
  schema : v.get "schema_version" = .int 1
  invocationId : v.get "invocation_id" = .str i.invocationId.1
  engineId : (v.get "engine").get "engine_id" = .str engineId
  engineVersion : (v.get "engine").get "engine_version" = .str i.engineVersion.1
  capabilityId : (v.get "operation").get "capability_id" = .str capabilityId
  capabilityVersion : (v.get "operation").get "capability_version" = .str "1.0.0"
  inputRef : v.get "input_ref" = i.inputRef.json
  inputDigest : v.get "input_digest" = i.inputDigest.json
  sourceRefs : v.get "source_refs" = Lineage.json i.sourceRefs
  policyRef : (v.get "policy_admission").get "policy_ref" = i.policyRef.json
  decision : (v.get "policy_admission").get "decision" = .str i.decision.name

/-- An invocation of the supported engine, the input of which is one of its sources. -/
structure Supported (i : EngineInvocation) : Prop where
  semver : isSemver i.engineVersion.1 = true
  major : semverMajor i.engineVersion.1 = 3
  input : i.inputRef ∈ i.sourceRefs.1

theorem parse_eq_ok {v : Json} {i : EngineInvocation} : parse v = .ok i ↔ i.Reads v ∧ i.Supported := by
  simp only [parse, bind_eq_ok, ensure_eq_ok, exactKeys_eq_ok, exists_const, string_eq_ok, int_eq_ok, requiredRef_eq_ok,
    optionalDigest_eq_ok, required_eq_ok, lineage_eq_ok, member_eq_ok PolicyDecision.mem_all PolicyDecision.name_injective,
    Except.ok.injEq]
  constructor
  · rintro ⟨-, hkeys, -, hengine, hoperation, hpolicy, id, hid, e, hversion, ⟨hid', hsemver⟩, hmajor, c, hcapability, cv, hcv,
      ⟨hc, hcv'⟩, d, hdecision, p, hpolicyRef, n, hinvocation, z, hschema, rfl, r, hinput, o, hdigest, g, rfl, l, hrefs, hmem, rfl⟩
    exact ⟨⟨hkeys, hengine, hoperation, hpolicy, hschema, hinvocation, hid.trans (congrArg _ hid'), hversion,
      hcapability.trans (congrArg _ hc), hcv.trans (congrArg _ hcv'), hinput, hdigest, hrefs, hpolicyRef, hdecision⟩,
      hsemver, hmajor, hmem⟩
  · rintro ⟨h, hsemver, hmajor, hmem⟩
    exact ⟨isObj_of_hasExactly h.keys, h.keys,
      ⟨isObj_of_hasExactly h.engineKeys, isObj_of_hasExactly h.operationKeys, isObj_of_hasExactly h.policyKeys⟩,
      h.engineKeys, h.operationKeys, h.policyKeys, ⟨engineId, by decide⟩, h.engineId, i.engineVersion, h.engineVersion,
      ⟨rfl, hsemver⟩, hmajor, ⟨capabilityId, by decide⟩, h.capabilityId, ⟨"1.0.0", by decide⟩, h.capabilityVersion, ⟨rfl, rfl⟩,
      i.decision, h.decision, i.policyRef, h.policyRef, i.invocationId, h.invocationId, 1, h.schema, rfl, i.inputRef, h.inputRef,
      some i.inputDigest, h.inputDigest, i.inputDigest, rfl, i.sourceRefs, h.sourceRefs, hmem, rfl⟩

theorem get_policyAdmission (i : EngineInvocation) : i.toDict.get "policy_admission" = i.policyAdmission := Json.get_mkObj _ _

theorem get_engine (i : EngineInvocation) : i.toDict.get "engine" = i.engine := Json.get_mkObj _ _

theorem get_operation (i : EngineInvocation) : i.toDict.get "operation" = operation := Json.get_mkObj _ _

theorem reads_toDict (i : EngineInvocation) : i.Reads i.toDict := by
  constructor
  case keys => exact Json.hasExactly_mkObj_self _
  case engineKeys =>
    rw [get_engine]
    exact Json.hasExactly_mkObj_self _
  case operationKeys =>
    rw [get_operation]
    exact Json.hasExactly_mkObj_self _
  case policyKeys =>
    rw [get_policyAdmission]
    exact Json.hasExactly_mkObj_self _
  case engineId | engineVersion =>
    rw [get_engine]
    exact Json.get_mkObj _ _
  case capabilityId | capabilityVersion =>
    rw [get_operation]
    exact Json.get_mkObj _ _
  case policyRef | decision =>
    rw [get_policyAdmission]
    exact Json.get_mkObj _ _
  all_goals exact Json.get_mkObj _ _

end EngineInvocation

/-! ### Observations -/

namespace InstanceStatus

def all : List InstanceStatus := [.succeeded, .degraded, .rejected, .failed]

theorem mem_all (s : InstanceStatus) : s ∈ all := by cases s <;> simp [all]

theorem name_injective : Function.Injective name := by
  intro a b h
  cases a <;> cases b <;> first | rfl | exact absurd h (by decide)

end InstanceStatus

/-- An object that has the required keys, and no other than the allowed ones. -/
def Json.hasBetween (v : Json) (required allowed : List String) : Bool :=
  match v with
  | .obj f => f.all (fun p => allowed.any (Str.lit · = p.1)) && required.all fun k => f.any (·.1 = Str.lit k)
  | _ => false

theorem Json.hasBetween_of_hasExactly {v : Json} {required allowed : List String} (h : v.hasExactly allowed = true)
    (hsub : ∀ k ∈ required, k ∈ allowed) : v.hasBetween required allowed = true := by
  cases v with
  | obj f =>
    simp only [hasExactly, hasBetween, Bool.and_eq_true, List.all_eq_true] at h ⊢
    exact ⟨h.1, fun k hk => h.2 k (hsub k hk)⟩
  | _ => cases h

theorem Json.isObj_of_hasBetween {v : Json} {required allowed : List String} (h : v.hasBetween required allowed = true) :
    v.isObj = true := by
  cases v with
  | obj f => rfl
  | _ => cases h

/-- What an engine observed of an invocation. -/
structure EngineObservation where
  invocationId : BoundedString 512
  status : InstanceStatus
  outputRef : Option OutputRef
  outputDigest : Option Digest
  sourceLineage : Lineage
  measurements : List ContextMeasurement
  failure : Option ContextFailure
  receiptLink : Option ContextReceiptLink
deriving DecidableEq

namespace EngineObservation

def required : List String := ["schema_version", "invocation_id", "status", "source_lineage", "measurements"]

def keys : List String :=
  ["schema_version", "invocation_id", "status", "output_ref", "output_digest", "source_lineage", "measurements", "failure",
    "receipt_link"]

def toDict (o : EngineObservation) : Json :=
  Json.mkObj [("schema_version", .int 1), ("invocation_id", .str o.invocationId.1), ("status", .str o.status.name),
    ("output_ref", optional outputJson o.outputRef), ("output_digest", optional Digest.json o.outputDigest),
    ("source_lineage", Lineage.json o.sourceLineage), ("measurements", .arr (o.measurements.map ContextMeasurement.toDict)),
    ("failure", optional ContextFailure.toDict o.failure), ("receipt_link", optional ContextReceiptLink.toDict o.receiptLink)]

def measurementList (v : Json) : Except InstanceError (List ContextMeasurement) :=
  match v with
  | .arr l =>
    if l.length ≤ maxMeasurements then l.mapM ContextMeasurement.parse
    else .error (.protocol "observation.measurements exceeds its bound")
  | _ => .error (.protocol "observation.measurements exceeds its bound")

/-- `_parse_observation(value, invocation_id)`. -/
def parse (v : Json) (invocationId : Str) : Except InstanceError EngineObservation := do
  ensure (v.isObj = true) (.protocol "observation must be an object or null")
  ensure (v.hasBetween required keys = true) (.protocol "observation fields do not match the v1 contract")
  let observed ← string (v.get "invocation_id") "observation.invocation_id" maxRefBytes
  ensure (observed.1 = invocationId) (.protocol "observation invocation binding mismatch")
  let schema ← int (v.get "schema_version") "observation.schema_version"
  ensure (schema = 1) (.protocol "unsupported observation schema version")
  let status ← member InstanceStatus.all InstanceStatus.name "unknown observation status" (v.get "status")
  let outputRef ← optionalOutputRef (v.get "output_ref") "observation.output_ref"
  let outputDigest ← Instance.optionalDigest (v.get "output_digest") "observation.output_digest"
  validatePair outputRef outputDigest "observation"
  let sourceLineage ← lineage (v.get "source_lineage") "observation.source_lineage"
  let measurements ← measurementList (v.get "measurements")
  let failure ← ContextFailure.parse (v.get "failure")
  let receiptLink ← ContextReceiptLink.parse invocationId (v.get "receipt_link")
  ensure (status = .succeeded ∨ status = .degraded → failure = none)
    (.protocol "successful/degraded observation cannot contain failure")
  ensure (status = .failed ∨ status = .rejected → failure ≠ none) (.protocol "failed/rejected observation requires failure")
  ensure (status = .succeeded → receiptLink ≠ none) (.protocol "succeeded observation requires receipt_link")
  .ok ⟨observed, status, outputRef, outputDigest, sourceLineage, measurements, failure, receiptLink⟩

/-- What an observation is written as. -/
structure Reads (o : EngineObservation) (v : Json) : Prop where
  keys : v.hasBetween required keys = true
  schema : v.get "schema_version" = .int 1
  invocationId : v.get "invocation_id" = .str o.invocationId.1
  status : v.get "status" = .str o.status.name
  outputRef : v.get "output_ref" = optional outputJson o.outputRef
  outputDigest : v.get "output_digest" = optional Digest.json o.outputDigest
  sourceLineage : v.get "source_lineage" = Lineage.json o.sourceLineage
  measurements : ∃ l, v.get "measurements" = .arr l ∧ List.Forall₂ (fun v m => ContextMeasurement.Reads m v) l o.measurements
  failure : ReadsOption ContextFailure.Reads o.failure (v.get "failure")
  receiptLink : ReadsOption ContextReceiptLink.Reads o.receiptLink (v.get "receipt_link")

/-- An observation of an invocation, with what its status calls for. -/
structure Of (o : EngineObservation) (invocationId : Str) : Prop where
  invocation : o.invocationId.1 = invocationId
  paired : Paired o.outputRef o.outputDigest
  measured : o.measurements.length ≤ maxMeasurements
  linked : ∀ l ∈ o.receiptLink, l.Links invocationId
  succeeded : o.status = .succeeded ∨ o.status = .degraded → o.failure = none
  failed : o.status = .failed ∨ o.status = .rejected → o.failure ≠ none
  receipt : o.status = .succeeded → o.receiptLink ≠ none

theorem measurementList_eq_ok {v : Json} {m : List ContextMeasurement} :
    measurementList v = .ok m ↔ (∃ l, v = .arr l ∧ List.Forall₂ (fun v m => ContextMeasurement.Reads m v) l m) ∧
      m.length ≤ maxMeasurements := by
  have hitems : ∀ l : List Json, l.mapM ContextMeasurement.parse = .ok m ↔
      List.Forall₂ (fun v m => ContextMeasurement.Reads m v) l m := by
    intro l
    rw [mapM_eq_ok]
    simp only [ContextMeasurement.parse_eq_ok]
  constructor
  · intro h
    unfold measurementList at h
    split at h
    · next l =>
      split_ifs at h with hlength
      have hread := (hitems l).mp h
      exact ⟨⟨l, rfl, hread⟩, hread.length_eq ▸ hlength⟩
    · cases h
  · rintro ⟨⟨l, rfl, hread⟩, hlength⟩
    rw [measurementList, if_pos (hread.length_eq ▸ hlength)]
    exact (hitems l).mpr hread

theorem readsOption_and {α : Type} {R : α → Json → Prop} {P : α → Prop} {o : Option α} {v : Json} :
    ReadsOption (fun a v => R a v ∧ P a) o v ↔ ReadsOption R o v ∧ ∀ a ∈ o, P a := by
  cases o <;> simp [ReadsOption]

theorem parse_eq_ok {v : Json} {invocationId : Str} {o : EngineObservation} :
    parse v invocationId = .ok o ↔ o.Reads v ∧ o.Of invocationId := by
  simp only [parse, bind_eq_ok, ensure_eq_ok, exists_const, string_eq_ok, int_eq_ok, optionalDigest_eq_ok,
    optionalOutputRef_eq_ok, validatePair_eq_ok, lineage_eq_ok, measurementList_eq_ok, ContextFailure.parse_eq_ok,
    ContextReceiptLink.parse_eq_ok, readsOption_and, member_eq_ok InstanceStatus.mem_all InstanceStatus.name_injective,
    Except.ok.injEq]
  constructor
  · rintro ⟨-, hkeys, i, hinvocation, rfl, z, hschema, rfl, t, hstatus, r, href, d, hdigest, hpaired, l, hlineage, m,
      ⟨hmeasurements, hmeasured⟩, f, hfailure, k, ⟨hlink, hlinked⟩, hsucceeded, hfailed, hreceipt, rfl⟩
    exact ⟨⟨hkeys, hschema, hinvocation, hstatus, href, hdigest, hlineage, hmeasurements, hfailure, hlink⟩,
      rfl, hpaired, hmeasured, hlinked, hsucceeded, hfailed, hreceipt⟩
  · rintro ⟨h, hof⟩
    exact ⟨Json.isObj_of_hasBetween h.keys, h.keys, o.invocationId, h.invocationId, hof.invocation, 1, h.schema, rfl, o.status,
      h.status, o.outputRef, h.outputRef, o.outputDigest, h.outputDigest, hof.paired, o.sourceLineage, h.sourceLineage,
      o.measurements, ⟨h.measurements, hof.measured⟩, o.failure, h.failure, o.receiptLink, ⟨h.receiptLink, hof.linked⟩,
      hof.succeeded, hof.failed, hof.receipt, rfl⟩

theorem readsOption_toDict {α : Type} {R : α → Json → Prop} {g : α → Json} (h : ∀ a, R a (g a)) (o : Option α) :
    ReadsOption R o (optional g o) := by
  cases o with
  | none => rfl
  | some a => exact h a

theorem reads_toDict (o : EngineObservation) : o.Reads o.toDict := by
  constructor
  case keys => exact Json.hasBetween_of_hasExactly (Json.hasExactly_mkObj_self _) (by decide)
  case measurements =>
    refine ⟨_, Json.get_mkObj _ _, ?_⟩
    rw [List.forall₂_map_left_iff]
    exact List.forall₂_same.mpr fun m _ => m.reads_toDict
  case failure =>
    have hget : o.toDict.get "failure" = optional ContextFailure.toDict o.failure := Json.get_mkObj _ _
    rw [hget]
    exact readsOption_toDict ContextFailure.reads_toDict _
  case receiptLink =>
    have hget : o.toDict.get "receipt_link" = optional ContextReceiptLink.toDict o.receiptLink := Json.get_mkObj _ _
    rw [hget]
    exact readsOption_toDict ContextReceiptLink.reads_toDict _
  all_goals exact Json.get_mkObj _ _

end EngineObservation

/-! ### Views and recoveries -/

/-- The view of a response. -/
structure InstanceView where
  text : BoundedString maxTextBytes
  outputRef : Option OutputRef
  outputDigest : Option Digest
deriving DecidableEq

namespace InstanceView

def toDict (x : InstanceView) : Json :=
  Json.mkObj [("text", .str x.text.1), ("output_ref", optional outputJson x.outputRef),
    ("output_digest", optional Digest.json x.outputDigest)]

/-- `_parse_view(value)`. -/
def parse (v : Json) : Except InstanceError InstanceView := do
  ensure (v.isObj = true) (.protocol "view must be an object")
  exactKeys v ["text", "output_ref", "output_digest"] "view"
  let text ← string (v.get "text") "view.text" maxTextBytes
  let outputRef ← optionalOutputRef (v.get "output_ref") "view.output_ref"
  let outputDigest ← Instance.optionalDigest (v.get "output_digest") "view.output_digest"
  validatePair outputRef outputDigest "view"
  ensure (∀ d ∈ outputDigest, text.1.utf8?.map digestOf = some d) (.protocol "view output digest mismatch")
  .ok ⟨text, outputRef, outputDigest⟩

structure Reads (x : InstanceView) (v : Json) : Prop where
  keys : v.hasExactly ["text", "output_ref", "output_digest"] = true
  text : v.get "text" = .str x.text.1
  outputRef : v.get "output_ref" = optional outputJson x.outputRef
  outputDigest : v.get "output_digest" = optional Digest.json x.outputDigest

/-- The text of a view is the one that its digest and its reference name. -/
structure Bound (x : InstanceView) : Prop where
  paired : Paired x.outputRef x.outputDigest
  digest : ∀ d ∈ x.outputDigest, x.text.1.utf8?.map digestOf = some d

theorem parse_eq_ok {v : Json} {x : InstanceView} : parse v = .ok x ↔ x.Reads v ∧ x.Bound := by
  simp only [parse, bind_eq_ok, ensure_eq_ok, exactKeys_eq_ok, exists_const, string_eq_ok, optionalOutputRef_eq_ok,
    optionalDigest_eq_ok, validatePair_eq_ok, Except.ok.injEq]
  constructor
  · rintro ⟨-, hkeys, t, htext, r, href, d, hdigest, hpaired, hbound, rfl⟩
    exact ⟨⟨hkeys, htext, href, hdigest⟩, hpaired, hbound⟩
  · rintro ⟨h, hpaired, hbound⟩
    exact ⟨isObj_of_hasExactly h.keys, h.keys, x.text, h.text, x.outputRef, h.outputRef, x.outputDigest, h.outputDigest, hpaired,
      hbound, rfl⟩

theorem reads_toDict (x : InstanceView) : x.Reads x.toDict where
  keys := Json.hasExactly_mkObj_self _
  text := Json.get_mkObj _ _
  outputRef := Json.get_mkObj _ _
  outputDigest := Json.get_mkObj _ _

end InstanceView

/-- How the source of a view is recovered. -/
structure InstanceRecovery where
  recoveryRef : Ref 512
  sourceRef : Ref 512
  sourceDigest : Digest
deriving DecidableEq

namespace InstanceRecovery

def toDict (x : InstanceRecovery) : Json :=
  Json.mkObj [("recovery_ref", x.recoveryRef.json), ("source_ref", x.sourceRef.json), ("source_digest", x.sourceDigest.json)]

/-- `_parse_recovery(value)`. -/
def parse (v : Json) : Except InstanceError InstanceRecovery := do
  ensure (v.isObj = true) (.protocol "recovery must be an object")
  exactKeys v ["recovery_ref", "source_ref", "source_digest"] "recovery"
  let digest ← Instance.optionalDigest (v.get "source_digest") "recovery.source_digest"
  let sourceDigest ← required digest "recovery.source_digest is required"
  let recoveryRef ← requiredRef (v.get "recovery_ref") "recovery.recovery_ref"
  let sourceRef ← requiredRef (v.get "source_ref") "recovery.source_ref"
  .ok ⟨recoveryRef, sourceRef, sourceDigest⟩

structure Reads (x : InstanceRecovery) (v : Json) : Prop where
  keys : v.hasExactly ["recovery_ref", "source_ref", "source_digest"] = true
  recoveryRef : v.get "recovery_ref" = x.recoveryRef.json
  sourceRef : v.get "source_ref" = x.sourceRef.json
  sourceDigest : v.get "source_digest" = x.sourceDigest.json

theorem parse_eq_ok {v : Json} {x : InstanceRecovery} : parse v = .ok x ↔ x.Reads v := by
  simp only [parse, bind_eq_ok, ensure_eq_ok, exactKeys_eq_ok, exists_const, requiredRef_eq_ok, optionalDigest_eq_ok,
    required_eq_ok, Except.ok.injEq]
  constructor
  · rintro ⟨-, hkeys, o, hdigest, d, rfl, r, hrecovery, t, hsource, rfl⟩
    exact ⟨hkeys, hrecovery, hsource, hdigest⟩
  · rintro ⟨hkeys, hrecovery, hsource, hdigest⟩
    exact ⟨isObj_of_hasExactly hkeys, hkeys, some x.sourceDigest, hdigest, x.sourceDigest, rfl, x.recoveryRef, hrecovery,
      x.sourceRef, hsource, rfl⟩

theorem reads_toDict (x : InstanceRecovery) : x.Reads x.toDict where
  keys := Json.hasExactly_mkObj_self _
  recoveryRef := Json.get_mkObj _ _
  sourceRef := Json.get_mkObj _ _
  sourceDigest := Json.get_mkObj _ _

end InstanceRecovery

/-! ### Responses -/

/-- A response. A recovery has no invocation and no observation. -/
structure InstanceResponse where
  view : InstanceView
  records : Option (EngineInvocation × EngineObservation)
  recovery : InstanceRecovery
deriving DecidableEq

namespace InstanceResponse

def keys : List String :=
  ["schema_version", "transport_version", "engine_interface_version", "view", "invocation", "observation", "recovery"]

def engineInterfaceVersion : String := "1.0.0"

def maxResponseBytes : Nat := 16777216

def toDict (x : InstanceResponse) : Json :=
  Json.mkObj [("schema_version", .int 1), ("transport_version", .int 1), ("engine_interface_version", .str engineInterfaceVersion),
    ("view", x.view.toDict), ("invocation", optional (fun r => r.1.toDict) x.records),
    ("observation", optional (fun r => r.2.toDict) x.records), ("recovery", x.recovery.toDict)]

/-- The invocation and the observation of a response, which are both null or both there. -/
def parseRecords (invocation observation : Json) (view : InstanceView) :
    Except InstanceError (Option (EngineInvocation × EngineObservation)) :=
  if invocation = .null ∨ observation = .null then do
    ensure (invocation = .null ∧ observation = .null) (.protocol "invocation and observation must both be null or present")
    .ok none
  else do
    let i ← EngineInvocation.parse invocation
    let o ← EngineObservation.parse observation i.invocationId.1
    ensure (o.sourceLineage = i.sourceRefs) (.protocol "observation source lineage does not match invocation")
    ensure (o.outputRef = view.outputRef ∧ o.outputDigest = view.outputDigest)
      (.protocol "view and observation output binding mismatch")
    .ok (some (i, o))

/-- What `_parse_response` reads of a document. -/
def parseDocument (v : Json) : Except InstanceError InstanceResponse := do
  exactKeys v keys "Instance response"
  let schema ← int (v.get "schema_version") "response.schema_version"
  ensure (schema = 1) (.compatibility "unsupported schema version")
  let transport ← int (v.get "transport_version") "response.transport_version"
  ensure (transport = 1) (.compatibility "unsupported transport version")
  ensure (v.get "engine_interface_version" = .str engineInterfaceVersion) (.compatibility "unsupported Engine Interface version")
  let view ← InstanceView.parse (v.get "view")
  let recovery ← InstanceRecovery.parse (v.get "recovery")
  let records ← parseRecords (v.get "invocation") (v.get "observation") view
  .ok ⟨view, records, recovery⟩

/-- `_parse_response(raw)`. -/
def parse (raw : Bytes) : Except InstanceError InstanceResponse := do
  ensure (raw.length ≤ maxResponseBytes) (.protocol "Instance response exceeds the bound")
  match Json.strictLoads? raw with
  | none => .error (.protocol (if ((Json.decodeText? raw).bind Json.parse?).isSome then "Instance response must be a JSON object"
      else "invalid Instance response"))
  | some v => parseDocument v

/-- An observation of an invocation that agrees with it on the sources, and with a view on the output. -/
structure Joined (i : EngineInvocation) (o : EngineObservation) (view : InstanceView) : Prop where
  supported : i.Supported
  observed : o.Of i.invocationId.1
  sources : o.sourceLineage = i.sourceRefs
  outputRef : o.outputRef = view.outputRef
  outputDigest : o.outputDigest = view.outputDigest

theorem parseRecords_eq_ok {invocation observation : Json} {view : InstanceView} {i : EngineInvocation} {o : EngineObservation} :
    parseRecords invocation observation view = .ok (some (i, o)) ↔ i.Reads invocation ∧ o.Reads observation ∧ Joined i o view := by
  constructor
  · intro h
    unfold parseRecords at h
    split at h
    · simp only [bind_eq_ok, ensure_eq_ok, exists_const] at h
      cases h.2
    · simp only [bind_eq_ok, ensure_eq_ok, exists_const, EngineInvocation.parse_eq_ok, EngineObservation.parse_eq_ok,
        Except.ok.injEq] at h
      obtain ⟨i', ⟨hi, hsupported⟩, o', ⟨ho, hof⟩, hsources, ⟨href, hdigest⟩, h⟩ := h
      cases h
      exact ⟨hi, ho, hsupported, hof, hsources, href, hdigest⟩
  · rintro ⟨hi, ho, h⟩
    have hnull : ¬(invocation = .null ∨ observation = .null) := by
      rintro (rfl | rfl)
      · exact Bool.false_ne_true hi.keys
      · exact Bool.false_ne_true ho.keys
    rw [parseRecords, if_neg hnull, EngineInvocation.parse_eq_ok.mpr ⟨hi, h.supported⟩, ok_bind,
      EngineObservation.parse_eq_ok.mpr ⟨ho, h.observed⟩, ok_bind, ensure_true h.sources, ok_bind,
      ensure_true ⟨h.outputRef, h.outputDigest⟩, ok_bind]

/-- What the response of a context view is written as. -/
structure Reads (view : InstanceView) (i : EngineInvocation) (o : EngineObservation) (recovery : InstanceRecovery) (v : Json) :
    Prop where
  keys : v.hasExactly keys = true
  schema : v.get "schema_version" = .int 1
  transport : v.get "transport_version" = .int 1
  engineInterface : v.get "engine_interface_version" = .str engineInterfaceVersion
  view : view.Reads (v.get "view")
  invocation : i.Reads (v.get "invocation")
  observation : o.Reads (v.get "observation")
  recovery : recovery.Reads (v.get "recovery")

theorem parseDocument_eq_ok {v : Json} {view : InstanceView} {i : EngineInvocation} {o : EngineObservation}
    {recovery : InstanceRecovery} : parseDocument v = .ok ⟨view, some (i, o), recovery⟩ ↔
      Reads view i o recovery v ∧ view.Bound ∧ Joined i o view := by
  simp only [parseDocument, bind_eq_ok, ensure_eq_ok, exactKeys_eq_ok, exists_const, int_eq_ok, InstanceView.parse_eq_ok,
    InstanceRecovery.parse_eq_ok, Except.ok.injEq]
  constructor
  · rintro ⟨hkeys, n, hschema, rfl, t, htransport, rfl, hinterface, w, ⟨hview, hbound⟩, y, hrecovery, records, hrecords, h⟩
    cases h
    obtain ⟨hi, ho, hjoined⟩ := parseRecords_eq_ok.mp hrecords
    exact ⟨⟨hkeys, hschema, htransport, hinterface, hview, hi, ho, hrecovery⟩, hbound, hjoined⟩
  · rintro ⟨h, hbound, hjoined⟩
    exact ⟨h.keys, 1, h.schema, rfl, 1, h.transport, rfl, h.engineInterface, view, ⟨h.view, hbound⟩, recovery, h.recovery,
      some (i, o), parseRecords_eq_ok.mpr ⟨h.invocation, h.observation, hjoined⟩, rfl⟩

theorem parse_eq_ok {raw : Bytes} {x : InstanceResponse} :
    parse raw = .ok x ↔ raw.length ≤ maxResponseBytes ∧ ∃ v, Json.strictLoads? raw = some v ∧ parseDocument v = .ok x := by
  rw [parse, ensure_bind_eq_ok]
  cases Json.strictLoads? raw <;> simp

theorem reads_toDict (view : InstanceView) (i : EngineInvocation) (o : EngineObservation) (recovery : InstanceRecovery) :
    Reads view i o recovery (toDict ⟨view, some (i, o), recovery⟩) := by
  let v := toDict ⟨view, some (i, o), recovery⟩
  have hview : v.get "view" = view.toDict := Json.get_mkObj _ _
  have hinvocation : v.get "invocation" = i.toDict := Json.get_mkObj _ _
  have hobservation : v.get "observation" = o.toDict := Json.get_mkObj _ _
  have hrecovery : v.get "recovery" = recovery.toDict := Json.get_mkObj _ _
  constructor
  case keys => exact Json.hasExactly_mkObj_self _
  case view => exact hview ▸ view.reads_toDict
  case invocation => exact hinvocation ▸ i.reads_toDict
  case observation => exact hobservation ▸ o.reads_toDict
  case recovery => exact hrecovery ▸ recovery.reads_toDict
  all_goals exact Json.get_mkObj _ _

end InstanceResponse

end LeanCtx
