import LeanCtx.Enterprise.SourcePlan

/-! The execution of a declared plan over its sources, read as `source_execution.py` reads it: the task and the plan of the caller,
    and the answer of the host, which joins the source plan, the executed plan, the view, the invocation, the observation and the
    receipt. -/

namespace LeanCtx

namespace Json

/-- `value` with the members that are null left out, among the given keys. -/
def dropNull (keys : List String) : Json → Json
  | .obj f => .obj (f.filter fun p => !(p.2 = .null && keys.any (Str.lit · = p.1)))
  | v => v

/-- `value[key] = w`. -/
def put (v : Json) (k : String) (w : Json) : Json :=
  match v with
  | .obj f => .obj (f.filter (fun p => p.1 ≠ Str.lit k) ++ [(Str.lit k, w)])
  | v => v

end Json

namespace Enterprise.Execution
open Planning (Request SourcePlan maxU64)

def maxU32 : Nat := 4294967295
def maxRefBytes : Nat := 512
def maxTaskBytes : Nat := 16384
def maxListItems : Nat := 256
def maxViewBytes : Nat := 1048576
def maxReceiptDocumentBytes : Nat := 1048576
def maxResponseV2Bytes : Nat := 4194304
def maxWrapperV2Bytes : Nat := 65536
def localNative : String := "local-native"
def capability : String := "capability://leanctx/context-optimization"
def capabilityVersion : String := "1.0.0"

/-- `value not in {…}` raises: a value that Python cannot hash raises a `TypeError`. -/
def oneOf (v : Json) (names : List String) (field : String) (protocol : Bool) : Except InstanceError Unit :=
  match v with
  | .str s => ensure (names.any (Str.lit · = s) = true) (fail protocol (field ++ " is unsupported"))
  | .arr _ => .error .typeError
  | .obj _ => .error .typeError
  | _ => .error (fail protocol (field ++ " is unsupported"))

/-- `_text(value, field, protocol=protocol)`. -/
def plainText (v : Json) (field : String) (protocol : Bool) : Except InstanceError (Field maxRefBytes false true) :=
  Enterprise.text v field maxRefBytes protocol false true

/-- A check of a member that may be missing or null. -/
def given (v : Json) (key : String) (f : Json → Except InstanceError Unit) : Except InstanceError Unit :=
  match v.get? key with
  | none => .ok ()
  | some .null => .ok ()
  | some w => f w

/-- `_validate_string_list(value, field, protocol=protocol)`. -/
def stringList (v : Json) (field : String) (protocol : Bool) : Except InstanceError (List (Field maxRefBytes false true)) :=
  match v with
  | .arr l => do
    ensure (l.length ≤ maxListItems) (fail protocol (field ++ " has an invalid shape"))
    let items ← l.mapM fun w => plainText w field protocol
    ensure items.Nodup (fail protocol (field ++ " contains duplicates"))
    .ok items
  | _ => .error (fail protocol (field ++ " has an invalid shape"))

/-- The required members are there. -/
def requires (v : Json) (keys : List String) (field : String) (protocol : Bool) : Except InstanceError Unit :=
  ensure ((keys.all fun k => (v.get? k).isSome) = true) (fail protocol (field ++ " is missing a required field"))

/-! ### Tasks -/

def taskRequired : List String :=
  ["schema_version", "task_id", "trace_id", "project_id", "session_id", "agent_id", "complexity", "created_at"]

def taskOptional : List String :=
  ["parent_task_id", "tenant_id", "intent", "task_class", "risk_class", "quality_requirement_milli", "cost_budget_micros",
    "latency_budget_ms", "data_classification", "region_policy_ref", "model_policy_ref", "context_state_ref",
    "outcome_contract_ref"]

/-- `_validate_task(value, request, tenant_id, protocol=protocol)`. -/
def validateTask (v : Json) (request : Request) (tenantId : Str) (protocol : Bool) : Except InstanceError Json := do
  mapping v "task" protocol
  requires v taskRequired "task" protocol
  exactVersion (v.get "schema_version") "task.schema_version" protocol
  let taskId ← plainText (v.get "task_id") "task.task_id" protocol
  ensure (taskId.1 = request.taskId.1) (fail protocol "task.task_id does not bind the planning request")
  ["trace_id", "project_id", "session_id", "agent_id"].forM fun k => do
    let _ ← plainText (v.get k) ("task." ++ k) protocol
  oneOf (v.get "complexity") ["unknown", "low", "medium", "high", "critical"] "task.complexity" protocol
  let _ ← plainText (v.get "created_at") "task.created_at" protocol
  ensure (v.get? "tenant_id" = some (.str tenantId)) (fail protocol "task.tenant_id does not bind the authenticated tenant")
  given v "parent_task_id" fun w => do
    let parent ← plainText w "task.parent_task_id" protocol
    ensure (parent ≠ taskId) (fail protocol "task cannot be its own parent")
  ["intent", "task_class", "region_policy_ref", "model_policy_ref", "context_state_ref", "outcome_contract_ref"].forM fun k =>
    given v k fun w => do
      let _ ← plainText w ("task." ++ k) protocol
  given v "risk_class" fun w => oneOf w ["low", "medium", "high", "critical"] "task.risk_class" protocol
  given v "quality_requirement_milli" fun w => do
    let _ ← integer w "task.quality_requirement_milli" 1000 protocol
  ["cost_budget_micros", "latency_budget_ms"].forM fun k => given v k fun w => do
    let _ ← integer w ("task." ++ k) maxU64 protocol
  given v "data_classification" fun w =>
    oneOf w ["Public", "Internal", "Confidential", "Restricted"] "task.data_classification" protocol
  let normalized := v.dropNull taskOptional
  let b ← Planning.canonical normalized
  ensure (b.length ≤ maxTaskBytes) (fail protocol "task exceeds its byte bound")
  .ok normalized

/-! ### Plans -/

def planRequired : List String :=
  ["schema_version", "plan_id", "task_id", "context_budget_tokens", "context_strategy", "knowledge_refs", "capability_ids",
    "model", "provider", "reasoning_allocation_milli", "max_retries", "fallback_refs", "stop_condition", "expected_cost_micros",
    "expected_quality_milli", "expected_latency_ms"]

def planOptional : List String :=
  ["context_budget_policy", "estimates", "policy_decision_ref", "scheduler_decision_ref", "executor_agent_id", "context_plan_id",
    "capability_bindings"]

/-- The policy of a budget agrees with the budget. -/
def budgetPolicy (policy : Json) (budget : Nat) (protocol : Bool) : Except InstanceError Unit := do
  mapping policy "plan.context_budget_policy" protocol
  if policy.get "kind" = .str "token_limit" then do
    ensure (policy.hasExactly ["kind", "tokens"] = true) (fail protocol "plan.context_budget_policy fields are invalid")
    let tokens ← integer (policy.get "tokens") "plan.context_budget_policy.tokens" maxU64 protocol
    ensure (tokens = budget) (fail protocol "plan.context_budget_policy disagrees with context_budget_tokens")
  else if policy.get "kind" = .str "no_token_limit" then
    ensure (policy.hasExactly ["kind"] = true ∧ budget = 0)
      (fail protocol "plan.context_budget_policy disagrees with context_budget_tokens")
  else .error (fail protocol "plan.context_budget_policy.kind is unsupported")

/-- An estimate that is given agrees with the scalar of the plan. -/
def estimatesOf (estimates plan : Json) (protocol : Bool) : Except InstanceError Unit := do
  mapping estimates "plan.estimates" protocol
  ensure (estimates.hasExactly ["cost_micros", "quality_milli", "latency_ms"] = true)
    (fail protocol "plan.estimates fields are invalid")
  [("cost_micros", maxU64), ("quality_milli", 1000), ("latency_ms", maxU64)].forM fun p => given estimates p.1 fun w => do
    let _ ← integer w ("plan.estimates." ++ p.1) p.2 protocol
  ["cost_micros", "quality_milli", "latency_ms"].forM fun k =>
    ensure (estimates.get k = .null ∨ estimates.get k = plan.get ("expected_" ++ k))
      (fail protocol ("plan.estimates." ++ k ++ " disagrees with legacy scalar"))

/-- The bindings of the capabilities, each capability once. -/
def checkBindings (protocol : Bool) (capabilities : List Str) : List (Json × Nat) → List Str → Except InstanceError Unit
  | [], _ => .ok ()
  | (item, i) :: l, seen => do
    mapping item ("plan.capability_bindings[" ++ toString i ++ "]") protocol
    ensure (item.hasExactly ["capability_id", "version"] = true) (fail protocol "plan.capability_bindings entry is invalid")
    let id ← plainText (item.get "capability_id") "plan.capability_bindings.capability_id" protocol
    let version ← plainText (item.get "version") "plan.capability_bindings.version" protocol
    ensure (id.1 ∈ capabilities ∧ id.1 ∉ seen) (fail protocol "plan.capability_bindings does not match capability_ids")
    ensure (isSemver version.1 = true) (fail protocol "plan.capability_bindings.version is invalid")
    checkBindings protocol capabilities l (id.1 :: seen)

def capabilityBindings (v : Json) (capabilities : List Str) (protocol : Bool) : Except InstanceError Unit :=
  match v with
  | .arr l => do
    ensure (l.length = capabilities.length) (fail protocol "plan.capability_bindings has an invalid shape")
    checkBindings protocol capabilities l.zipIdx []
  | _ => .error (fail protocol "plan.capability_bindings has an invalid shape")

/-- `_validate_plan(value, task_id, protocol=protocol, allow_context_plan_id=allow)`. -/
def validatePlan (v : Json) (taskId : Str) (protocol allow : Bool) : Except InstanceError Json := do
  mapping v "plan" protocol
  requires v planRequired "plan" protocol
  exactVersion (v.get "schema_version") "plan.schema_version" protocol
  let planTask ← plainText (v.get "task_id") "plan.task_id" protocol
  ensure (planTask.1 = taskId) (fail protocol "plan.task_id does not bind task.task_id")
  let _ ← plainText (v.get "plan_id") "plan.plan_id" protocol
  let budget ← integer (v.get "context_budget_tokens") "plan.context_budget_tokens" maxU64 protocol
  oneOf (v.get "context_strategy") ["minimal", "balanced", "comprehensive", "cached_first"] "plan.context_strategy" protocol
  let _ ← stringList (v.get "knowledge_refs") "plan.knowledge_refs" protocol
  let capabilities ← stringList (v.get "capability_ids") "plan.capability_ids" protocol
  ensure (capabilities ≠ []) (fail protocol "plan.capability_ids must not be empty")
  let _ ← plainText (v.get "model") "plan.model" protocol
  let _ ← plainText (v.get "provider") "plan.provider" protocol
  let _ ← integer (v.get "reasoning_allocation_milli") "plan.reasoning_allocation_milli" 1000 protocol
  let _ ← integer (v.get "max_retries") "plan.max_retries" maxU32 protocol
  let _ ← stringList (v.get "fallback_refs") "plan.fallback_refs" protocol
  oneOf (v.get "stop_condition") ["on_completion", "on_acceptance", "on_budget_exhaustion", "on_error", "manual"]
    "plan.stop_condition" protocol
  ["expected_cost_micros", "expected_latency_ms"].forM fun k => do
    let _ ← integer (v.get k) ("plan." ++ k) maxU64 protocol
  let _ ← integer (v.get "expected_quality_milli") "plan.expected_quality_milli" 1000 protocol
  given v "context_plan_id" fun w => do
    ensure (allow = true) (fail protocol "source execution request plan must not contain context_plan_id")
    let _ ← plainText w "plan.context_plan_id" protocol
  given v "context_budget_policy" fun w => budgetPolicy w budget protocol
  given v "estimates" fun w => estimatesOf w v protocol
  ["policy_decision_ref", "scheduler_decision_ref", "executor_agent_id"].forM fun k => given v k fun w => do
    let _ ← plainText w ("plan." ++ k) protocol
  given v "capability_bindings" fun w => capabilityBindings w (capabilities.map (·.1)) protocol
  let normalized := v.dropNull planOptional
  ensure (normalized.canonicalBytes?.isSome = true) (fail protocol "plan contains non-canonical JSON data")
  .ok normalized

/-- The one binding of a plan that runs locally. -/
def localBinding : Json := Json.mkObj [("capability_id", .str capability), ("version", .str capabilityVersion)]

/-- `validate_execution_request(task, plan, request, tenant_id)`. -/
def validateRequest (task plan : Json) (request : Request) (tenantId : Str) : Except InstanceError (Json × Json) := do
  let task ← validateTask task request tenantId false
  let plan ← validatePlan plan request.taskId.1 false false
  ensure (plan.get "provider" = .str localNative ∧ plan.get "model" = .str localNative)
    (.validation "context_execute requires a local-native plan")
  ensure (plan.get "capability_ids" = .arr [.str capability])
    (.validation "context_execute requires the local-native capability")
  ensure (Json.pyEq (plan.get "capability_bindings") (.arr [localBinding]) = true)
    (.validation "context_execute requires a bound local-native capability")
  .ok (task, plan)

/-! ### Scope and lineage -/

/-- `_validate_source_scope(plan, source_ids)`, with the messages of its module. -/
def sourceScope (x : SourcePlan) (sourceIds : List Str) (selection binding permission : String) : Except InstanceError Unit := do
  x.plan.selections.forM fun s => ensure (s.sourceRef.1 ∈ sourceIds ∧ s.provider.1 ∈ sourceIds) (.protocol selection)
  x.bindings.forM fun d => do
    ensure (d.objectRef.1 ∈ sourceIds ∧ d.sourceId.1 ∈ sourceIds) (.protocol binding)
    ensure (d.permission = .permitted) (.protocol permission)

/-- The invocation of an execution. -/
structure Invocation where
  invocationId : Field maxRefBytes false true
  engineId : Field maxRefBytes false true
  engineVersion : Field maxRefBytes false true
  inputRef : Ref 512
  inputDigest : Digest
  sourceRefs : List (Ref 512)
  policyRef : Field maxRefBytes true true
deriving DecidableEq

namespace Invocation

def keys : List String :=
  ["schema_version", "invocation_id", "engine", "operation", "input_ref", "input_digest", "source_refs", "policy_admission"]

def toDict (i : Invocation) : Json :=
  Json.mkObj [("schema_version", .int 1), ("invocation_id", i.invocationId.json),
    ("engine", Json.mkObj [("engine_id", i.engineId.json), ("engine_version", i.engineVersion.json)]),
    ("operation", Json.mkObj [("capability_id", .str capability), ("capability_version", .str capabilityVersion)]),
    ("input_ref", i.inputRef.json), ("input_digest", i.inputDigest.json), ("source_refs", .arr (i.sourceRefs.map Ref.json)),
    ("policy_admission", Json.mkObj [("policy_ref", i.policyRef.json), ("decision", .str "admitted")])]

/-- `validate_ref(value, field)`. -/
def ref (v : Json) (message : String) : Except InstanceError (Ref 512) := Instance.stringOf (isRef 512) (fun _ => message) v

/-- `_parse_invocation(value)`. -/
def parse (v : Json) : Except InstanceError Invocation := do
  mapping v "execution.invocation" true
  exactKeys v keys "execution.invocation fields do not match the v1 contract"
  exactVersion (v.get "schema_version") "execution.invocation.schema_version" true
  let invocationId ← plainText (v.get "invocation_id") "execution.invocation.invocation_id" true
  let engine := v.get "engine"
  mapping engine "execution.invocation.engine" true
  exactKeys engine ["engine_id", "engine_version"] "execution.invocation.engine fields are invalid"
  let engineId ← plainText (engine.get "engine_id") "execution.invocation.engine.engine_id" true
  let engineVersion ← plainText (engine.get "engine_version") "execution.invocation.engine.engine_version" true
  ensure (isSemver engineVersion.1 = true) (.protocol "execution.invocation.engine.engine_version is invalid")
  let operation := v.get "operation"
  mapping operation "execution.invocation.operation" true
  exactKeys operation ["capability_id", "capability_version"] "execution.invocation.operation fields are invalid"
  ensure (operation.get "capability_id" = .str capability ∧ operation.get "capability_version" = .str capabilityVersion)
    (.protocol "execution.invocation is not bound to local-native capability")
  let policy := v.get "policy_admission"
  mapping policy "execution.invocation.policy_admission" true
  ensure (policy.hasExactly ["policy_ref", "decision"] = true ∧ policy.get "decision" = .str "admitted")
    (.protocol "execution.invocation is not policy-admitted")
  let policyRef ← Enterprise.text (policy.get "policy_ref") "execution.invocation.policy_admission.policy_ref" maxRefBytes true true true
  let inputRef ← ref (v.get "input_ref") "execution invocation input binding is invalid"
  let inputDigest ← wrapping (validateDigest (v.get "input_digest") "execution.invocation.input_digest")
    "execution invocation input binding is invalid"
  match v.get "source_refs" with
  | .arr l => do
    ensure (0 < l.length ∧ l.length ≤ Instance.maxRefs) (.protocol "execution.invocation.source_refs exceeds its bound")
    let refs ← l.mapM fun w => ref w "execution invocation source refs are invalid"
    ensure (refs.Nodup ∧ inputRef ∈ refs) (.protocol "execution.invocation source refs are not unique or omit input_ref")
    .ok ⟨invocationId, engineId, engineVersion, inputRef, inputDigest, refs, policyRef⟩
  | _ => .error (.protocol "execution.invocation.source_refs exceeds its bound")

end Invocation

def inputRefPrefix : String := "input:source-materialization-sha256:"
def evidencePrefix : String := "artifact://execution/evidence/"
def taskRefPrefix : String := "task:sha256:"
def planRefPrefix : String := "plan:sha256:"

/-- `_digest_suffix(value, prefix, field)`. -/
def digestSuffix (value : Str) (start field : String) : Except InstanceError Digest := do
  ensure (Str.lit start <+: value) (.protocol (field ++ " has an unsupported reference prefix"))
  wrapping (validateDigest (.str (Str.lit "sha256:" ++ value.drop (Str.lit start).length)) field)
    (field ++ " is not digest-bound")

/-- What a reference of a lineage is to, and the digest that it has to name. -/
def lineageKinds (input evidence task plan : Digest) : List (String × Digest × String) :=
  [(inputRefPrefix, input, "execution input lineage does not bind input_digest"),
    (evidencePrefix, evidence, "execution source-plan evidence is not digest-bound"),
    (taskRefPrefix, task, "execution task evidence is not digest-bound"),
    (planRefPrefix, plan, "execution plan evidence is not digest-bound")]

/-- The kind of a reference, which names the digest of its kind. -/
def lineageKind (kinds : List (String × Digest × String)) (ref : Str) : Except InstanceError String :=
  match kinds.find? fun k => Str.lit k.1 <+: ref with
  | none => .error (.protocol "execution invocation contains unknown lineage reference")
  | some (start, expected, message) => do
    let d ← digestSuffix ref start "execution.invocation.source_refs"
    ensure (d = expected) (.protocol message)
    .ok start

/-- `_validate_lineage(invocation, source_plan_digest, execution_plan_digest, task_digest)`. -/
def validateLineage (i : Invocation) (sourcePlan plan task : Digest) : Except InstanceError Unit := do
  ensure (i.sourceRefs.length = 4) (.protocol "execution invocation must contain four lineage references")
  let d ← digestSuffix i.inputRef.1 inputRefPrefix "execution.invocation.input_ref"
  ensure (d = i.inputDigest) (.protocol "execution input_ref does not bind input_digest")
  let kinds := lineageKinds i.inputDigest sourcePlan task plan
  let found ← i.sourceRefs.mapM fun r => lineageKind kinds r.1
  ensure ((kinds.all fun k => found.count k.1 = 1) = true) (.protocol "execution invocation lineage is incomplete")

/-- The receipt of an execution, whose outcome is not known. -/
structure Receipt where
  receiptId : Field maxRefBytes true true
  receiptDigest : Digest
deriving DecidableEq

namespace Receipt

def toDict (r : Receipt) : Json :=
  Json.mkObj [("receipt_id", r.receiptId.json), ("receipt_ref", .str (Str.lit "id:" ++ r.receiptDigest.1)),
    ("receipt_digest", r.receiptDigest.json), ("outcome", .str "unknown")]

/-- `_parse_receipt(value)`. -/
def parse (v : Json) : Except InstanceError Receipt := do
  mapping v "execution.canonical_receipt" true
  exactKeys v ["receipt_id", "receipt_ref", "receipt_digest", "outcome"] "execution canonical receipt fields are invalid"
  let receiptId ← Enterprise.text (v.get "receipt_id") "execution.canonical_receipt.receipt_id" maxRefBytes true true true
  let receiptDigest ← wrapping (validateDigest (v.get "receipt_digest") "execution.canonical_receipt.receipt_digest")
    "execution canonical receipt identity is invalid"
  let receiptRef ← Invocation.ref (v.get "receipt_ref") "execution canonical receipt identity is invalid"
  ensure (receiptRef.1 = Str.lit "id:" ++ receiptDigest.1)
    (.protocol "execution canonical receipt reference is not digest-bound")
  ensure (v.get "outcome" = .str "unknown") (.protocol "execution canonical receipt outcome must remain unknown")
  .ok ⟨receiptId, receiptDigest⟩

end Receipt

/-! ### Answers -/

/-- What is returned of an execution. -/
structure Response where
  tenantId : Str
  governanceRevision : Nat
  sourcePlan : SourcePlan
  executionPlan : Json
  view : InstanceView
  invocation : Invocation
  observation : EngineObservation
  receipt : Receipt

def wrapperKeys : List String := ["schema_version", "tenant_id", "governance_revision", "execution"]

def executionKeys : List String :=
  ["schema_version", "transport_version", "engine_interface_version", "source_plan", "execution_plan", "view", "invocation",
    "observation", "canonical_receipt"]

def decisionRef : String := "context_autopilot_decision_ref"

/-- `plan.get("context_plan_evaluation_v1")["evaluation_time"]`, null where there is none. -/
def evaluationTime (p : Planning.Plan) : Json := (p.toDict.get "context_plan_evaluation_v1").get "evaluation_time"

/-- The declared plan with what the host adds to it: the identifier of the context plan, and a reference to a decision where none
    is declared. -/
def expectedPlan (plan executed : Json) : Except InstanceError Json := do
  let expected := plan.put "context_plan_id" (executed.get "context_plan_id")
  if (expected.get? decisionRef).isSome then .ok expected
  else match executed.get decisionRef with
    | .str s => do
      ensure (s ≠ []) (.protocol "Enterprise source execution decision reference is missing")
      .ok (expected.put decisionRef (.str s))
    | _ => .error (.protocol "Enterprise source execution decision reference is missing")

/-- The executed plan, joined to the source plan and to the declared plan. -/
def executedPlan (v plan : Json) (request : Request) (source : Planning.Plan) : Except InstanceError Json := do
  let executed ← validatePlan v request.taskId.1 true true
  ensure (executed.get "context_plan_id" = source.contextPlanId.json)
    (.protocol "Enterprise source execution plan does not bind source plan")
  ensure (executed.get "context_budget_tokens" = .int source.budgetTokens)
    (.protocol "Enterprise source execution budget does not bind source plan")
  ensure (executed.get "provider" = .str localNative ∧ executed.get "model" = .str localNative ∧
    executed.get "capability_ids" = .arr [.str capability]) (.protocol "Enterprise source execution plan is not local-native")
  ensure (Json.pyEq (executed.get "capability_bindings") (.arr [localBinding]) = true)
    (.protocol "Enterprise source execution capability binding is invalid")
  let expected ← expectedPlan plan executed
  ensure (Json.pyEq expected executed = true) (.protocol "Enterprise source execution changed the declared plan")
  .ok executed

/-- The view, the invocation, the observation and the receipt of an execution, joined to each other and to what was executed. -/
def joined (v task : Json) (response : InstanceView → Invocation → EngineObservation → Receipt → Response) :
    Except InstanceError Response := do
  let view ← InstanceView.parse (v.get "view")
  ensure (view.outputDigest.isSome = true ∧ view.outputRef.isSome = true)
    (.protocol "Enterprise source execution view is missing output binding")
  ensure (view.text.1.utf8Length ≤ maxViewBytes) (.protocol "Enterprise source execution view exceeds its byte bound")
  let invocation ← Invocation.parse (v.get "invocation")
  let observation ← EngineObservation.parse (v.get "observation") invocation.invocationId.1
  ensure (observation.status = .succeeded) (.protocol "Enterprise source execution observation did not succeed")
  ensure (observation.sourceLineage.1 = invocation.sourceRefs)
    (.protocol "Enterprise source execution lineage does not bind invocation")
  ensure (observation.outputRef = view.outputRef ∧ observation.outputDigest = view.outputDigest)
    (.protocol "Enterprise source execution view does not bind observation")
  let sourcePlan ← Planning.canonical (v.get "source_plan")
  let plan ← Planning.canonical (v.get "execution_plan")
  let task ← Planning.canonical task
  validateLineage invocation (digestOf sourcePlan) (digestOf plan) (digestOf task)
  let receipt ← Receipt.parse (v.get "canonical_receipt")
  .ok (response view invocation observation receipt)

/-- `parse_source_execution_response(raw, request, source_ids, task, plan, tenant_id, expected_governance_revision,
    expected_binding_digest, planning_evaluation_time)`. -/
def parse (raw : Bytes) (request : Request) (sourceIds : List Str) (task plan : Json) (tenantId : Str) (revision : Nat)
    (bindingDigest : Str) (time : Option Str) : Except InstanceError Response := do
  let value ← loads raw "Enterprise instance source execution response is not valid JSON"
  exactKeys value wrapperKeys "Enterprise source execution response wrapper is invalid"
  exactVersion (value.get "schema_version") "response.schema_version" true
  ensure (value.get "tenant_id" = .str tenantId)
    (.protocol "Enterprise source execution response tenant binding does not match")
  let found ← integer (value.get "governance_revision") "response.governance_revision" maxU64 true
  ensure (found = revision) (.protocol "Enterprise source execution governance revision does not match")
  let v := value.get "execution"
  mapping v "execution" true
  exactKeys v executionKeys "Enterprise source execution fields do not match the v1 contract"
  exactVersion (v.get "schema_version") "execution.schema_version" true
  exactVersion (v.get "transport_version") "execution.transport_version" true
  ensure (v.get "engine_interface_version" = .str Planning.interfaceVersion)
    (.protocol "Enterprise source execution Engine interface is unsupported")
  let source ← wrapping (do SourcePlan.parse (← Planning.canonical (v.get "source_plan")) request none)
    "Enterprise source execution source plan is invalid"
  sourceScope source sourceIds "source execution selection is outside requested sources"
    "source execution binding is outside requested sources" "source execution selected source is not permitted"
  let expected ← validateDigest (.str bindingDigest) "expected_binding_digest"
  ensure (source.bindingDigest = expected) (.protocol "Enterprise source execution binding digest does not match")
  let executed ← executedPlan (v.get "execution_plan") plan request source.plan
  ensure (∀ t ∈ time, evaluationTime source.plan = .str t)
    (.protocol "Enterprise source execution changed the evaluation time")
  joined v task (Response.mk tenantId found source executed)

theorem joined_eq_ok {v task : Json} {f : InstanceView → Invocation → EngineObservation → Receipt → Response} {r : Response}
    (h : joined v task f = .ok r) : ∃ view invocation observation receipt, r = f view invocation observation receipt := by
  simp only [joined, bind_eq_ok, ensure_eq_ok, Except.ok.injEq] at h
  obtain ⟨view, -, -, -, -, -, invocation, -, observation, -, -, -, -, -, -, -, -, -, -, -, -, -, -, -, receipt, -, h⟩ := h
  exact ⟨view, invocation, observation, receipt, h.symm⟩

/-- What an accepted answer is joined from: the source plan, the executed plan and the evaluation time. -/
theorem parse_joins {raw : Bytes} {request : Request} {sourceIds : List Str} {task plan : Json} {tenantId : Str} {revision : Nat}
    {bindingDigest : Str} {time : Option Str} {r : Response}
    (h : parse raw request sourceIds task plan tenantId revision bindingDigest time = .ok r) :
    ∃ v, Json.strictLoads? raw = some v ∧
      (∃ data, Planning.canonical ((v.get "execution").get "source_plan") = .ok data ∧
        SourcePlan.parse data request none = .ok r.sourcePlan) ∧
      executedPlan ((v.get "execution").get "execution_plan") plan request r.sourcePlan.plan = .ok r.executionPlan ∧
      ∀ t ∈ time, evaluationTime r.sourcePlan.plan = .str t := by
  simp only [parse, bind_eq_ok, ensure_eq_ok, loads_eq_ok, wrapping_eq_ok] at h
  obtain ⟨v, hv, -, -, -, -, -, -, found, -, -, -, -, -, -, -, -, -, -, -, -, -, source, hsource, -, -, -, -, -, -, executed,
    hexecuted, -, htime, h⟩ := h
  obtain ⟨view, invocation, observation, receipt, rfl⟩ := joined_eq_ok h
  exact ⟨v, hv, hsource, hexecuted, htime⟩

/-- An answer that carries the text of its receipt. -/
structure ResponseV2 where
  execution : Response
  receiptDocument : Str

/-- `parse_source_execution_v2_response(raw, …)`. -/
def parseV2 (raw : Bytes) (request : Request) (sourceIds : List Str) (task plan : Json) (tenantId : Str) (revision : Nat)
    (bindingDigest : Str) (time : Option Str) : Except InstanceError ResponseV2 := do
  ensure (raw.length ≤ maxResponseV2Bytes + maxWrapperV2Bytes)
    (.protocol "Enterprise source execution v2 response exceeds its byte bound")
  let value ← loads raw "Enterprise instance source execution v2 response is not valid JSON"
  exactKeys value wrapperKeys "Enterprise source execution v2 response wrapper is invalid"
  ensure (value.get "schema_version" = .int 2)
    (.protocol "Enterprise source execution v2 response schema_version is unsupported")
  ensure (value.get "tenant_id" = .str tenantId) (.protocol "Enterprise source execution v2 tenant binding does not match")
  let found ← integer (value.get "governance_revision") "response.governance_revision" maxU64 true
  ensure (found = revision) (.protocol "Enterprise source execution v2 governance revision does not match")
  let v := value.get "execution"
  mapping v "execution" true
  exactKeys v ["schema_version", "execution", "receipt_document_json"]
    "Enterprise source execution v2 fields do not match the v2 contract"
  ensure (v.get "schema_version" = .int 2)
    (.protocol "Enterprise source execution v2 execution schema_version is unsupported")
  match v.get "receipt_document_json" with
  | .str document => do
    match document.utf8? with
    | none => .error (.protocol "Enterprise source execution v2 receipt document is not valid UTF-8")
    | some bytes => do
      ensure (bytes.length ≤ maxReceiptDocumentBytes)
        (.protocol "Enterprise source execution v2 receipt document exceeds its byte bound")
      let nested := v.get "execution"
      mapping nested "execution.execution" true
      let inner ← wrapping (Planning.canonical (Json.mkObj [("schema_version", .int 2), ("execution", nested),
        ("receipt_document_json", .str document)])) "Enterprise source execution v2 response contains non-canonical JSON data"
      ensure (inner.length ≤ maxResponseV2Bytes)
        (.protocol "Enterprise source execution v2 response exceeds its byte bound")
      let v1 ← wrapping (Planning.canonical (Json.mkObj [("schema_version", .int 1), ("tenant_id", .str tenantId),
        ("governance_revision", .int found), ("execution", nested)]))
        "Enterprise source execution v2 response contains non-canonical JSON data"
      let execution ← parse v1 request sourceIds task plan tenantId found bindingDigest time
      ensure (execution.receipt.receiptDigest = digestOf bytes)
        (.protocol "Enterprise source execution v2 receipt document digest does not match")
      .ok ⟨execution, document⟩
  | _ => .error (.protocol "Enterprise source execution v2 receipt_document_json must be a string")

end Enterprise.Execution
end LeanCtx
