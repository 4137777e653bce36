import LeanCtx.Enterprise.Execution

/-! The client of an authenticated instance, as `enterprise_instance.py` and `presenter.py` have it: it materializes a plan, with
    or without a presenter capability, executes a declared plan, and uses text that was presented. The transport is a parameter. -/

namespace LeanCtx.Enterprise
open Planning (Request SourcePlan maxU64)

def maxRequestBytes : Nat := 65536
def maxResponseBytes : Nat := 1048576
def maxContentBytes : Nat := 1048576
def maxMaterializationBytes : Nat := maxResponseBytes + maxContentBytes
def maxExecutionBytes : Nat := maxResponseBytes + maxContentBytes + maxResponseBytes
def maxExecutionV2Bytes : Nat := Execution.maxResponseV2Bytes + Execution.maxWrapperV2Bytes
def maxPresenterEnvelopeBytes : Nat := 512
def maxSourceRequestBytes : Nat := 1048576

/-! ### Capabilities -/

/-- The secret of a presenter capability. -/
def isCapability (s : Str) : Bool :=
  decide (Str.lit "lcp1_" <+: s) && s.length == 69 && (s.drop 5).all Sha256.isHex

abbrev Capability := {s : Str // isCapability s = true}

/-- `_REFERENCE.match(value)`. -/
def isPresenterRef (s : Str) : Bool :=
  decide (Str.lit "presenter:" <+: s) && s.length == 42 && (s.drop 10).all Sha256.isHex

abbrev PresenterRef := {s : Str // isPresenterRef s = true}

/-- What a caller presents under: a lifetime in seconds, for which a capability is issued, or a capability that it holds. -/
inductive Presenter
  | issue (seconds : Int)
  | renew (held : Capability)

def Presenter.held : Presenter → Option Capability
  | issue _ => none
  | renew held => some held

def maxPresenterSeconds : Nat := 86400

/-- `presenter_request(presenter)`. -/
def presenterRequest : Presenter → Except InstanceError Json
  | .renew _ => .ok (Json.mkObj [("mode", .str "renew")])
  | .issue seconds => do
    ensure (1 ≤ seconds ∧ seconds ≤ maxPresenterSeconds)
      (.validation "presenter must be a PresenterCapability or a lifetime of 1 to 86400 seconds")
    .ok (Json.mkObj [("mode", .str "issue"), ("ttl_seconds", .int seconds)])

/-- A text holds another one somewhere. -/
def Contains (text part : Str) : Prop := part <:+: text

instance (text part : Str) : Decidable (Contains text part) := inferInstanceAs (Decidable (part <:+: text))

/-- What a grant says: who presents, until when, and the capability where one is issued. -/
structure Grant where
  presenterRef : PresenterRef
  expiresAt : Nat
  capability : Option Capability
deriving DecidableEq

def presenterRef (v : Json) : Except InstanceError PresenterRef :=
  Instance.stringOf isPresenterRef (fun _ => "presenter_ref is malformed") v

/-- The end of a presentation, in seconds. -/
def expiry : Json → Except InstanceError Nat
  | .int n => if 0 < n ∧ n ≤ maxU64 then .ok n.toNat else .error (.protocol "presenter expires_at_unix is malformed")
  | _ => .error (.protocol "presenter expires_at_unix is malformed")

/-- `parse_presenter_grant(value, content, issued=issued)`. -/
def parsePresenterGrant (v : Json) (content : Str) (issued : Bool) : Except InstanceError Grant := do
  ensure (v.hasBetween [] ["presenter_ref", "expires_at_unix", "capability"] = true)
    (.protocol "presenter grant fields do not match the v2 contract")
  let reference ← presenterRef (v.get "presenter_ref")
  let expiresAt ← expiry (v.get "expires_at_unix")
  ensure ((v.get? "capability").isSome = issued) (.protocol "presenter capability presence does not match the request")
  if issued = true then do
    let secret ← Instance.stringOf isCapability (fun _ => "presenter capability is malformed") (v.get "capability")
    ensure (¬Contains content secret.1) (.protocol "presenter capability appears in materialized content")
    .ok ⟨reference, expiresAt, some secret⟩
  else .ok ⟨reference, expiresAt, none⟩

/-! ### Requests -/

/-- `_canonical_uuid(value, field_name)`: a UUID that is not nil, in lowercase. -/
def canonicalUuid (s : Str) (field : String) : Except InstanceError Uuid :=
  if h : isUuid (s.map fun c => if 65 ≤ c ∧ c ≤ 70 then c + 32 else c) = true then do
    ensure (∃ c ∈ s, c ≠ 45 ∧ c ≠ 48) (.validation (field ++ " must be a non-nil canonical UUID"))
    .ok ⟨_, h⟩
  else .error (.validation (field ++ " must be a canonical UUID"))

/-- `_source_ids(value)`. -/
def sourceIds (l : List Str) : Except InstanceError (List Uuid) := do
  ensure (l.length ≤ Planning.maxSources) (.validation "source_ids exceeds the instance source bound")
  let ids ← l.mapM (canonicalUuid · "source_id")
  ensure ids.Nodup (.validation "source_ids must not contain duplicates")
  .ok ids

/-- `_validate_u64(value, field_name)`. -/
def u64 (v : Json) (field : String) : Except InstanceError Nat :=
  match v with
  | .int n =>
    if 0 ≤ n ∧ n ≤ maxU64 then .ok n.toNat else .error (.protocol (field ++ " must be an unsigned 64-bit integer"))
  | _ => .error (.protocol (field ++ " must be an unsigned 64-bit integer"))

theorem u64_eq_ok {v : Json} {field : String} {n : Nat} : u64 v field = .ok n ↔ v = .int n ∧ n ≤ maxU64 := by
  constructor
  · intro h
    unfold u64 at h
    split at h
    · split_ifs at h with hn
      cases h
      exact ⟨congrArg Json.int (Int.toNat_of_nonneg hn.1).symm, by omega⟩
    · cases h
  · rintro ⟨rfl, hn⟩
    simp [u64, hn]

/-- `_validate_input_u64(value, field_name)`. -/
def inputU64 (n : Int) (field : String) : Except InstanceError Nat :=
  if 0 ≤ n ∧ n ≤ maxU64 then .ok n.toNat else .error (.validation (field ++ " must be an unsigned 64-bit integer"))

/-- What a call is made with: the request, its sources, and the revision and the binding that it expects. -/
structure Call where
  request : Request
  sourceIds : List Str
  revision : Int
  bindingDigest : Str
  time : Option Str

/-- A call whose arguments were checked. -/
structure Checked where
  sources : List Uuid
  revision : Nat
  bindingDigest : Digest

def Checked.ids (c : Checked) : List Str := c.sources.map (·.1)

/-- The arguments of a call, checked. -/
def Call.check (c : Call) : Except InstanceError Checked := do
  let sources ← Enterprise.sourceIds c.sourceIds
  let revision ← inputU64 c.revision "expected_governance_revision"
  let bindingDigest ← catching (validateDigest (.str c.bindingDigest) "expected_binding_digest") fun _ =>
    .validation "expected_binding_digest is invalid"
  .ok ⟨sources, revision, bindingDigest⟩

/-- `body["planning_evaluation_time"]`, where a time is given. -/
def Call.timeField (c : Call) : Except InstanceError (List (String × Json)) :=
  match c.time with
  | none => .ok []
  | some t => do
    let time ← Planning.timestamp (.str t) "planning_evaluation_time"
    .ok [("planning_evaluation_time", time.json)]

/-- The members of a request for a materialization, with further ones before the time. -/
def Call.body (c : Call) (k : Checked) (more : Except InstanceError (List (String × Json))) :
    Except InstanceError (List (String × Json)) := do
  let planning ← c.request.toDict
  let more ← more
  let time ← c.timeField
  .ok ([("planning", planning), ("source_ids", .arr (k.sources.map Uuid.json)),
    ("expected_governance_revision", .int k.revision), ("expected_binding_digest", k.bindingDigest.json)] ++ more ++ time)

/-- The bytes of a request, within a bound. -/
def payload (v : Json) (max : Nat) (message : String) : Except InstanceError Bytes := do
  let b ← Planning.canonical v
  ensure (b.length ≤ max) (.validation message)
  .ok b

/-- The authenticated client of a tenant. `post path payload presenter` sends a request and gives the response. -/
structure Client where
  tenantId : Uuid
  post : String → Bytes → Option Capability → Except InstanceError Bytes

/-- `_post_json(path, payload, max_response_bytes, …)`. -/
def Client.postJson (c : Client) (path : String) (data : Bytes) (max : Nat) (presenter : Option Capability) :
    Except InstanceError Bytes := do
  let raw ← c.post path data presenter
  ensure (raw.length ≤ max) (.protocol "response exceeds its byte bound")
  .ok raw

/-! ### Materializations -/

/-- A materialized plan with its content. -/
structure Materialization where
  revision : Nat
  plan : SourcePlan
  digest : Digest
  tokens : Nat
  content : Str

def envelopeKeys : List String := ["schema_version", "tenant_id", "governance_revision", "materialization"]

def materializationKeys : List String :=
  ["schema_version", "transport_version", "engine_interface_version", "plan", "materialized_digest", "materialized_token_count",
    "content"]

/-- `_validate_materialized_content(value)`, with the digest of the content. -/
def materializedContent (v : Json) : Except InstanceError (Str × Digest) :=
  match v with
  | .str s =>
    match s.utf8? with
    | none => .error (.protocol "Enterprise instance materialized content is not valid UTF-8")
    | some b => do
      ensure (b.length ≤ maxContentBytes) (.protocol "Enterprise instance materialized content exceeds its byte bound")
      .ok (s, digestOf b)
  | _ => .error (.protocol "Enterprise instance materialized content is not a string")

/-- `_canonical_uuid(value["tenant_id"], "tenant_id")` is the tenant of the client. -/
def Client.tenant (c : Client) (v : Json) (invalid other : String) : Except InstanceError Unit :=
  match v with
  | .str s => do
    let tenant ← wrapping (canonicalUuid s "tenant_id") invalid
    ensure (tenant = c.tenantId) (.protocol other)
  | _ => .error (.protocol invalid)

/-- The materialization of an envelope. -/
def parseMaterialized (v : Json) (request : Request) (k : Checked) : Except InstanceError Materialization := do
  exactKeys v materializationKeys "Enterprise instance materialization fields do not match the v1 contract"
  ensure (v.get "schema_version" = .int 1) (.protocol "Enterprise instance materialization schema_version is unsupported")
  ensure (v.get "transport_version" = .int 1)
    (.protocol "Enterprise instance materialization transport_version is unsupported")
  ensure (v.get "engine_interface_version" = .str Planning.interfaceVersion)
    (.protocol "Enterprise instance materialization engine_interface_version is unsupported")
  let raw ← wrapping (Planning.canonical (v.get "plan")) "Enterprise instance materialization plan is not canonical JSON"
  let plan ← wrapping (SourcePlan.parse raw request none) "Enterprise instance materialization source plan failed validation"
  Execution.sourceScope plan k.ids "Enterprise instance selection is outside requested sources"
    "Enterprise instance source binding is outside requested sources" "Enterprise instance selected source is not permitted"
  ensure (plan.bindingDigest = k.bindingDigest)
    (.protocol "Enterprise instance materialization binding digest does not match")
  let digest ← wrapping (validateDigest (v.get "materialized_digest") "materialized_digest")
    "Enterprise instance materialized digest is invalid"
  let tokens ← u64 (v.get "materialized_token_count") "materialized_token_count"
  ensure (tokens ≤ plan.plan.budgetTokens)
    (.protocol "Enterprise instance materialized token metric exceeds the plan budget")
  let content ← materializedContent (v.get "content")
  ensure (content.2 = digest) (.protocol "Enterprise instance materialized content digest does not match")
  .ok ⟨k.revision, plan, digest, tokens, content.1⟩

/-- `_parse_materialization_response(raw, request, source_ids, expected_governance_revision, expected_binding_digest)`. -/
def Client.parseMaterialization (c : Client) (raw : Bytes) (request : Request) (k : Checked) :
    Except InstanceError Materialization := do
  let v ← loads raw "Enterprise instance materialization response is not valid JSON"
  exactKeys v envelopeKeys "Enterprise instance materialization response fields do not match the v1 contract"
  ensure (v.get "schema_version" = .int 1)
    (.protocol "Enterprise instance materialization response schema_version is unsupported")
  c.tenant (v.get "tenant_id") "Enterprise instance materialization response tenant_id is invalid"
    "Enterprise instance materialization response tenant binding does not match"
  let revision ← u64 (v.get "governance_revision") "governance_revision"
  ensure (revision = k.revision) (.protocol "Enterprise instance materialization governance revision does not match")
  parseMaterialized (v.get "materialization") request k

def materializationPath : String := "/v1/engine/context-materialize"
def materializationV2Path : String := "/v1/engine/context-materialize-v2"

/-- The checked arguments of `context_materialize`, and the bytes that the host answers. -/
def Client.materializationAnswer (c : Client) (call : Call) : Except InstanceError (Checked × Bytes) := do
  let k ← call.check
  let body ← call.body k (.ok [])
  let data ← payload (Json.mkObj body) maxRequestBytes
    "Enterprise instance materialization request exceeds its byte bound"
  let raw ← c.postJson materializationPath data maxMaterializationBytes none
  .ok (k, raw)

/-- `client.context_materialize(…)`. -/
def Client.contextMaterialize (c : Client) (call : Call) : Except InstanceError Materialization := do
  let (k, raw) ← c.materializationAnswer call
  c.parseMaterialization raw call.request k

/-- A materialization under a capability, with its grant. -/
structure Presented where
  materialization : Materialization
  grant : Grant

/-- The answer to `context_materialize_v2`: the envelope of a materialization and a grant. -/
def Client.parsePresented (c : Client) (raw : Bytes) (request : Request) (k : Checked) (presenter : Presenter) :
    Except InstanceError Presented := do
  let v ← loads raw "Enterprise instance materialization response is not valid JSON"
  ensure (v.hasExactly envelopeKeys = true ∧ v.get "schema_version" = .int 2)
    (.protocol "Enterprise instance materialization response fields do not match the v2 contract")
  let engine := v.get "materialization"
  ensure (engine.hasExactly ["schema_version", "materialization", "presenter"] = true ∧ engine.get "schema_version" = .int 2)
    (.protocol "Enterprise instance materialization fields do not match the v2 contract")
  let inner ← wrapping (Planning.canonical (Json.mkObj [("schema_version", .int 1), ("tenant_id", v.get "tenant_id"),
    ("governance_revision", v.get "governance_revision"), ("materialization", engine.get "materialization")]))
    "Enterprise instance materialization response is not canonical JSON"
  let materialization ← c.parseMaterialization inner request k
  let grant ← parsePresenterGrant (engine.get "presenter") materialization.content presenter.held.isNone
  .ok ⟨materialization, grant⟩

/-- The bytes that `context_materialize_v2` sends. -/
def Call.presentedPayload (call : Call) (k : Checked) (presenter : Presenter) : Except InstanceError (Json × Bytes) := do
  let fields ← call.body k (do return [("presenter", ← presenterRequest presenter)])
  let body := Json.mkObj fields
  let data ← payload body maxRequestBytes "Enterprise instance materialization request exceeds its byte bound"
  .ok (body, data)

/-- The checked arguments of `context_materialize_v2`, and the bytes that the host answers. -/
def Client.presentedAnswer (c : Client) (call : Call) (presenter : Presenter) : Except InstanceError (Checked × Bytes) := do
  let k ← call.check
  let sent ← call.presentedPayload k presenter
  let raw ← c.postJson materializationV2Path sent.2 (maxMaterializationBytes + maxPresenterEnvelopeBytes) presenter.held
  .ok (k, raw)

/-- `client.context_materialize_v2(…)`. -/
def Client.contextMaterializeV2 (c : Client) (call : Call) (presenter : Presenter) : Except InstanceError Presented := do
  let (k, raw) ← c.presentedAnswer call presenter
  c.parsePresented raw call.request k presenter

/-! ### Executions -/

def executionPath : String := "/v1/engine/context-execute"
def executionV2Path : String := "/v2/engine/context-execute"

/-- The arguments of an execution, checked, with its request. -/
def Client.prepareExecution (c : Client) (call : Call) (task plan : Json) :
    Except InstanceError (Checked × Json × Json × Bytes) := do
  let _ ← Enterprise.sourceIds call.sourceIds
  let normalized ← Execution.validateRequest task plan call.request c.tenantId.1
  let k ← call.check
  let materialization ← call.body k (.ok [])
  let data ← payload (Json.mkObj [("task", normalized.1), ("plan", normalized.2), ("materialization", Json.mkObj materialization)])
    maxSourceRequestBytes "Enterprise instance source execution request exceeds its byte bound"
  .ok (k, normalized.1, normalized.2, data)

/-- `client.context_execute(task, plan, …)`. -/
def Client.contextExecute (c : Client) (call : Call) (task plan : Json) : Except InstanceError Execution.Response := do
  let (k, task, plan, data) ← c.prepareExecution call task plan
  let raw ← c.postJson executionPath data maxExecutionBytes none
  Execution.parse raw call.request k.ids task plan c.tenantId.1 k.revision k.bindingDigest.1 call.time

/-- `client.context_execute_v2(task, plan, …)`. -/
def Client.contextExecuteV2 (c : Client) (call : Call) (task plan : Json) : Except InstanceError Execution.ResponseV2 := do
  let (k, task, plan, data) ← c.prepareExecution call task plan
  let raw ← c.postJson executionV2Path data maxExecutionV2Bytes none
  Execution.parseV2 raw call.request k.ids task plan c.tenantId.1 k.revision k.bindingDigest.1 call.time

/-! ### Uses of presented text -/

def maxPresentedBytes : Nat := 1048576

def isRecoveryId (s : Str) : Bool := s.length == 64 && s.all Sha256.isHex

abbrev RecoveryId := {s : Str // isRecoveryId s = true}

/-- `_REASON.match(value)`. -/
def isReason (s : Str) : Bool :=
  ["lineage.", "recovery."].any fun start => decide (Str.lit start <+: s) &&
    let rest := s.drop (Str.lit start).length
    1 ≤ rest.length && rest.length ≤ 48 && rest.all fun c => (97 ≤ c && c ≤ 122) || c == 95

inductive UseMode
  | check
  | retain
  | expand
deriving DecidableEq

namespace UseMode

def name : UseMode → String
  | check => "check"
  | retain => "retain"
  | expand => "expand"

def all : List UseMode := [check, retain, expand]

end UseMode

/-- What is asked of presented text: whether it may be used, that it is kept, or that kept text is given back. -/
structure Asked where
  mode : UseMode
  value : Str
deriving DecidableEq

def Asked.json (a : Asked) : Json :=
  Json.mkObj [("mode", .str a.mode.name), (if a.mode = .expand then "recovery_id" else "content", .str a.value)]

/-- `presented_use_request(mode, value)`. -/
def presentedUseRequest (mode value : Str) : Except InstanceError Asked :=
  match UseMode.all.find? fun m => Str.lit m.name = mode with
  | none => .error (.validation "presented use mode must be check, retain or expand")
  | some .expand => do
    ensure (isRecoveryId value = true) (.validation "recovery_id is malformed")
    .ok ⟨.expand, value⟩
  | some mode => do
    ensure (value.all Str.isScalar = true) (.validation "presented content is not valid UTF-8")
    ensure (0 < value.utf8Length ∧ value.utf8Length ≤ maxPresentedBytes)
      (.validation "presented content is empty or exceeds its byte bound")
    .ok ⟨mode, value⟩

/-- The answer to a use. -/
structure Use where
  presenterRef : PresenterRef
  usable : Bool
  reason : Option Str
  sourceIds : List Str
  recoveryId : Option Str
  content : Option Str
deriving DecidableEq

def useKeys : List String :=
  ["schema_version", "presenter_ref", "usable", "reason", "source_ids", "recovery_id", "content"]

/-- The sources that an answer names, each once. -/
def useSources (v : Json) : Except InstanceError (List Str) :=
  match v with
  | .arr l => do
    let ids ← l.mapM fun
      | .str s => if s = [] then .error (.protocol "presented use source_ids are malformed") else .ok s
      | _ => .error (.protocol "presented use source_ids are malformed")
    ensure ids.Nodup (.protocol "presented use source_ids repeat a source")
    .ok ids
  | _ => .error (.protocol "presented use source_ids are malformed")

/-- The recovery identifier of an answer. A null one is none. -/
def useRecovery (v : Json) (asked : Asked) : Except InstanceError (Option Str) :=
  match v with
  | .null => .ok none
  | .str s => do
    ensure (isRecoveryId s = true ∧ (asked.mode = .expand → s = asked.value))
      (.protocol "presented use recovery_id is malformed")
    .ok (some s)
  | _ => .error (.protocol "presented use recovery_id is malformed")

/-- The content of an answer, which does not hold the capability. A null one is none. -/
def useContent (v : Json) (capability : Capability) : Except InstanceError (Option Str) :=
  match v with
  | .null => .ok none
  | .str s => do
    ensure (¬Contains s capability.1) (.protocol "presented use content is malformed")
    .ok (some s)
  | _ => .error (.protocol "presented use content is malformed")

/-- The reason of a refusal. -/
def useReason (v : Json) : Except InstanceError Str :=
  match v with
  | .str s => do
    ensure (isReason s = true) (.protocol "presented use refusal does not match the v1 contract")
    .ok s
  | _ => .error (.protocol "presented use refusal does not match the v1 contract")

/-- `parse_presented_use(value, request, capability)`. -/
def parsePresentedUse (v : Json) (asked : Asked) (capability : Capability) : Except InstanceError Use := do
  ensure (v.hasBetween ["schema_version", "presenter_ref", "usable", "source_ids"] useKeys = true ∧
    v.get "schema_version" = .int 1 ∧ (v.get "usable" = .bool true ∨ v.get "usable" = .bool false))
    (.protocol "presented use fields do not match the v1 contract")
  let reference ← presenterRef (v.get "presenter_ref")
  let ids ← useSources (v.get "source_ids")
  if v.get "usable" = .bool false then do
    let reason ← useReason (v.get "reason")
    ensure (ids = [] ∧ v.get? "recovery_id" = none ∧ v.get? "content" = none)
      (.protocol "presented use refusal does not match the v1 contract")
    .ok ⟨reference, false, some reason, [], none, none⟩
  else do
    ensure (v.get? "reason" = none ∧ ids ≠ []) (.protocol "presented use answer does not match the v1 contract")
    ensure ((v.get? "recovery_id").isSome = decide (asked.mode ≠ .check) ∧ (v.get? "content").isSome = decide (asked.mode = .expand))
      (.protocol "presented use answer does not match what was asked")
    let recoveryId ← useRecovery (v.get "recovery_id") asked
    let content ← useContent (v.get "content") capability
    .ok ⟨reference, true, none, ids, recoveryId, content⟩

/-- `_presenter_response(raw, "use", True)`. -/
def Client.presenterResponse (c : Client) (raw : Bytes) : Except InstanceError Json := do
  let v ← loads raw "Enterprise presenter response is not valid JSON"
  ensure (v.hasExactly ["schema_version", "tenant_id", "use", "governance_revision"] = true ∧ v.get "schema_version" = .int 1)
    (.protocol "Enterprise presenter response fields do not match the contract")
  c.tenant (v.get "tenant_id") "Enterprise presenter response tenant_id is invalid"
    "Enterprise presenter response tenant binding does not match"
  .ok v

def presentedUsePath : String := "/v1/engine/presented-use"

/-- The arguments of a use, checked, and the body that is sent. -/
def useBody (sourceIds : List Str) (revision : Int) (mode value : Str) :
    Except InstanceError (List Uuid × Nat × Asked × Json) := do
  let sources ← Enterprise.sourceIds sourceIds
  ensure (sources ≠ []) (.validation "presented_use requires at least one source id")
  let revision ← inputU64 revision "expected_governance_revision"
  let asked ← presentedUseRequest mode value
  .ok (sources, revision, asked, Json.mkObj [("schema_version", .int 1), ("source_ids", .arr (sources.map Uuid.json)),
    ("expected_governance_revision", .int revision), ("use", asked.json)])

/-- The answer to a use, joined to the revision and to the sources. -/
def Client.parseUse (c : Client) (raw : Bytes) (sources : List Uuid) (revision : Nat) (asked : Asked) (capability : Capability) :
    Except InstanceError Use := do
  let envelope ← c.presenterResponse raw
  let found ← u64 (envelope.get "governance_revision") "governance_revision"
  ensure (found = revision) (.protocol "Enterprise presented use governance revision does not match")
  let answer ← parsePresentedUse (envelope.get "use") asked capability
  ensure (answer.usable = true → (∀ s ∈ answer.sourceIds, s ∈ sources.map (·.1)) ∧ ∀ u ∈ sources, u.1 ∈ answer.sourceIds)
    (.protocol "Enterprise presented use is outside requested sources")
  .ok answer

/-- `client.presented_use(capability, source_ids, expected_governance_revision, mode, value)`. -/
def Client.presentedUse (c : Client) (capability : Capability) (sourceIds : List Str) (revision : Int) (mode value : Str) :
    Except InstanceError Use := do
  let (sources, revision, asked, body) ← useBody sourceIds revision mode value
  let data ← Planning.canonical body
  let raw ← c.postJson presentedUsePath data (maxMaterializationBytes + maxPresenterEnvelopeBytes) (some capability)
  c.parseUse raw sources revision asked capability

end LeanCtx.Enterprise
