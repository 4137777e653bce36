import LeanCtx.Enterprise.Execution
import LeanCtx.Enterprise.Unencodable

/-! The exceptions of the reader of an execution: it raises another one than `InstanceProtocolError` exactly where it meets a list or
    an object that it cannot hash, or where a text is nested too deep. -/

namespace LeanCtx.Enterprise
open Instance
open Planning (Unvalidated maxU64)

/-! ### Fields -/

theorem not_untyped_fail (m : String) : ¬Untyped (fail true m) := not_untyped_protocol m

theorem not_raises_mapping {v : Json} {field : String} : ¬Raises Untyped (mapping v field true) := by
  simp only [mapping, raises_bind, raises_ensure, not_untyped_fail, and_false, exists_false, or_false, not_false_eq_true]

theorem not_raises_text {v : Json} {field : String} {max : Nat} {printable controls : Bool} :
    ¬Raises Untyped (text v field max true printable controls) := by
  unfold text
  split
  · split_ifs
    · simp
    · exact fun h => not_untyped_fail _ (raises_error.mp h)
  · exact fun h => not_untyped_fail _ (raises_error.mp h)

theorem not_raises_integer {v : Json} {field : String} {max : Nat} : ¬Raises Untyped (integer v field max true) := by
  unfold integer
  split
  · split_ifs
    · simp
    · exact fun h => not_untyped_fail _ (raises_error.mp h)
  · exact fun h => not_untyped_fail _ (raises_error.mp h)

theorem not_raises_exactVersion {v : Json} {field : String} : ¬Raises Untyped (exactVersion v field true) :=
  not_raises_ensure (not_untyped_fail _)

theorem not_raises_exactKeys {v : Json} {keys : List String} {message : String} : ¬Raises Untyped (exactKeys v keys message) :=
  not_raises_ensure (not_untyped_protocol _)

theorem not_raises_loads {raw : Bytes} {message : String} : ¬Raises Untyped (loads raw message) := by
  unfold loads
  split <;> simp

/-- What raises only errors of validation raises, where these are caught, only errors of the protocol. -/
theorem not_raises_wrapping {α : Type} {x : Except InstanceError α} {message : String} (h : ¬Raises Unvalidated x) :
    ¬Raises Untyped (wrapping x message) := by
  rintro ⟨e, hx, he⟩
  cases x with
  | ok a => cases hx
  | error d =>
    cases d with
    | validation m =>
      cases hx
      exact not_untyped_protocol _ he
    | _ => exact h ⟨_, rfl, not_false⟩

namespace Execution

theorem raises_oneOf {v : Json} {names : List String} {field : String} : Raises Untyped (oneOf v names field true) ↔ v.IsContainer := by
  unfold oneOf
  split
  · exact iff_of_false (not_raises_ensure (not_untyped_fail _)) not_false
  · simp [Json.IsContainer]
  · simp [Json.IsContainer]
  · next hstr harr hobj =>
    refine iff_of_false (fun h => not_untyped_fail _ (raises_error.mp h)) ?_
    cases v with
    | arr l => exact absurd rfl (harr l)
    | obj f => exact absurd rfl (hobj f)
    | _ => exact not_false

theorem oneOf_eq_ok {v : Json} {names : List String} {field : String} {protocol : Bool} {u : Unit} :
    oneOf v names field protocol = .ok u ↔ ∃ n ∈ names, v = .str n := by
  unfold oneOf
  split
  · next s =>
    rw [ensure_eq_ok, List.any_eq_true]
    simp only [decide_eq_true_eq, Json.str.injEq, @eq_comm _ s]
  all_goals simp_all

theorem not_raises_plainText {v : Json} {field : String} : ¬Raises Untyped (plainText v field true) := not_raises_text

/-- A check the value of which is not used. -/
theorem not_raises_check {α : Type} {x : Except InstanceError α} (h : ¬Raises Untyped x) :
    ¬Raises Untyped (x >>= fun _ => pure ()) := by
  rw [raises_bind]
  rintro (hx | ⟨-, -, hpure⟩)
  · exact h hx
  · exact raises_pure () hpure

theorem not_raises_given {v : Json} {key : String} {f : Json → Except InstanceError Unit} (h : ∀ w, ¬Raises Untyped (f w)) :
    ¬Raises Untyped (given v key f) := by
  unfold given
  split
  · simp
  · simp
  · exact h _

theorem not_raises_stringList {v : Json} {field : String} : ¬Raises Untyped (stringList v field true) := by
  unfold stringList
  split
  · simp only [raises_bind, raises_ensure, raises_ok, raises_mapM, not_raises_plainText, not_untyped_fail, and_false, exists_false,
      or_false, not_false_eq_true]
  · exact fun h => not_untyped_fail _ (raises_error.mp h)

theorem not_raises_requires {v : Json} {keys : List String} {field : String} : ¬Raises Untyped (requires v keys field true) :=
  not_raises_ensure (not_untyped_fail _)

theorem not_raises_budgetPolicy {policy : Json} {budget : Nat} : ¬Raises Untyped (budgetPolicy policy budget true) := by
  simp only [budgetPolicy, raises_bind, raises_ite, raises_ensure, raises_error, not_raises_mapping, not_raises_integer, not_untyped_fail,
    and_false, exists_false, or_false, not_false_eq_true]

theorem not_raises_estimatesOf {estimates plan : Json} : ¬Raises Untyped (estimatesOf estimates plan true) := by
  have hgiven : ∀ l : List (String × Nat), ¬Raises Untyped (l.forM fun p => given estimates p.1 fun w => do
      let _ ← integer w ("plan.estimates." ++ p.1) p.2 true) :=
    fun l => not_raises_forM fun _ _ => not_raises_given fun _ => not_raises_check not_raises_integer
  have hagree : ∀ l : List String, ¬Raises Untyped (l.forM fun k =>
      ensure (estimates.get k = .null ∨ estimates.get k = plan.get ("expected_" ++ k))
        (fail true ("plan.estimates." ++ k ++ " disagrees with legacy scalar"))) :=
    fun l => not_raises_forM fun _ _ => not_raises_ensure (not_untyped_fail _)
  simp only [estimatesOf, raises_bind, raises_ensure, not_raises_mapping, hgiven, hagree, not_untyped_fail, and_false, exists_false,
    or_false, not_false_eq_true]

theorem not_raises_checkBindings {capabilities : List Str} {l : List (Json × Nat)} :
    ∀ {seen : List Str}, ¬Raises Untyped (checkBindings true capabilities l seen) := by
  induction l with
  | nil => exact raises_ok ()
  | cons p l ih =>
    intro seen
    simp only [checkBindings, raises_bind, raises_ensure, not_raises_mapping, not_raises_plainText, ih, not_untyped_fail, and_false,
      exists_false, or_false, not_false_eq_true]

theorem not_raises_capabilityBindings {v : Json} {capabilities : List Str} :
    ¬Raises Untyped (capabilityBindings v capabilities true) := by
  unfold capabilityBindings
  split
  · rw [raises_bind]
    rintro (h | ⟨-, -, h⟩)
    · exact not_raises_ensure (not_untyped_fail _) h
    · exact not_raises_checkBindings h
  · exact fun h => not_untyped_fail _ (raises_error.mp h)

/-! ### Where the reader of an execution meets a value that it cannot hash -/

/-- What is checked of a plan before its strategy. -/
structure PlanHeaded (taskId : Str) (v : Json) : Prop where
  isObj : v.isObj = true
  writable : v.Writable
  required : ∀ k ∈ planRequired, (v.get? k).isSome = true
  version : v.get "schema_version" = .int 1
  task : ∃ t : Field maxRefBytes false true, v.get "task_id" = t.json ∧ t.1 = taskId
  planId : ∃ t : Field maxRefBytes false true, v.get "plan_id" = t.json
  budget : ∃ n : Nat, v.get "context_budget_tokens" = .int n ∧ n ≤ maxU64

/-- What is checked of it before its condition to stop. -/
structure PlanListed (taskId : Str) (v : Json) : Prop extends PlanHeaded taskId v where
  strategy : ∃ n ∈ ["minimal", "balanced", "comprehensive", "cached_first"], v.get "context_strategy" = .str n
  knowledge : Returns (stringList (v.get "knowledge_refs") "plan.knowledge_refs" true)
  capabilities : ∃ l, stringList (v.get "capability_ids") "plan.capability_ids" true = .ok l ∧ l ≠ []
  model : ∃ t : Field maxRefBytes false true, v.get "model" = t.json
  provider : ∃ t : Field maxRefBytes false true, v.get "provider" = t.json
  reasoning : ∃ n : Nat, v.get "reasoning_allocation_milli" = .int n ∧ n ≤ 1000
  retries : ∃ n : Nat, v.get "max_retries" = .int n ∧ n ≤ maxU32
  fallback : Returns (stringList (v.get "fallback_refs") "plan.fallback_refs" true)

/-- The strategy of a plan, or its condition to stop, is a list or an object. -/
inductive PlanUnhashable (taskId : Str) (v : Json) : Prop
  | strategy (headed : PlanHeaded taskId v) (strategy : (v.get "context_strategy").IsContainer)
  | stop (listed : PlanListed taskId v) (stop : (v.get "stop_condition").IsContainer)

theorem plainText_eq_ok {v : Json} {field : String} {protocol : Bool} {t : Field maxRefBytes false true} :
    plainText v field protocol = .ok t ↔ v = t.json := text_eq_ok

theorem raises_validatePlan {v : Json} {taskId : Str} {allow : Bool} :
    Raises Untyped (validatePlan v taskId true allow) ↔ PlanUnhashable taskId v := by
  have hcosts : ∀ l : List String, ¬Raises Untyped (l.forM fun k => do
      let _ ← integer (v.get k) ("plan." ++ k) maxU64 true) :=
    fun l => not_raises_forM fun _ _ => not_raises_check not_raises_integer
  have hrefs : ∀ l : List String, ¬Raises Untyped (l.forM fun k => given v k fun w => do
      let _ ← plainText w ("plan." ++ k) true) :=
    fun l => not_raises_forM fun _ _ => not_raises_given fun _ => not_raises_check not_raises_plainText
  have hcontext : ¬Raises Untyped (given v "context_plan_id" fun w => do
      ensure (allow = true) (fail true "source execution request plan must not contain context_plan_id")
      let _ ← plainText w "plan.context_plan_id" true) := by
    refine not_raises_given fun w => ?_
    rw [raises_bind, or_iff_right (not_raises_ensure (not_untyped_fail _))]
    rintro ⟨-, -, h⟩
    exact not_raises_check not_raises_plainText h
  have hpolicy : ∀ budget, ¬Raises Untyped (given v "context_budget_policy" fun w => budgetPolicy w budget true) :=
    fun _ => not_raises_given fun _ => not_raises_budgetPolicy
  have hestimates : ¬Raises Untyped (given v "estimates" fun w => estimatesOf w v true) :=
    not_raises_given fun _ => not_raises_estimatesOf
  have hbindings : ∀ l, ¬Raises Untyped (given v "capability_bindings" fun w => capabilityBindings w l true) :=
    fun _ => not_raises_given fun _ => not_raises_capabilityBindings
  have hrequired : (planRequired.all fun k => (v.get? k).isSome) = true ↔ ∀ k ∈ planRequired, (v.get? k).isSome = true :=
    List.all_eq_true
  simp only [validatePlan, raises_bind, raises_ensure, raises_ok, raises_oneOf, mapping_eq_ok, requires, exactVersion_eq_ok,
    plainText_eq_ok, integer_eq_ok, oneOf_eq_ok, ensure_eq_ok, exists_const, hcosts, hrefs, hcontext, hpolicy, hestimates, hbindings,
    hrequired, not_raises_mapping, not_raises_exactVersion, not_raises_plainText, not_raises_integer, not_raises_stringList,
    not_untyped_fail, and_false, or_false, false_or]
  constructor
  · rintro ⟨⟨hobj, hwritable⟩, hkeys, hversion, t, htask, heq, id, hid, budget, hbudget,
      hstrategy | ⟨hstrategy, refs, hrefs, capabilities, hcapabilities, hne, m, hm, p, hp, n, hn, r, hr, fallback, hfallback, hstop⟩⟩
    · exact .strategy ⟨hobj, hwritable, hkeys, hversion, ⟨t, htask, heq⟩, ⟨id, hid⟩, ⟨budget, hbudget⟩⟩ hstrategy
    · exact .stop ⟨⟨hobj, hwritable, hkeys, hversion, ⟨t, htask, heq⟩, ⟨id, hid⟩, ⟨budget, hbudget⟩⟩, hstrategy, ⟨refs, hrefs⟩,
        ⟨capabilities, hcapabilities, hne⟩, ⟨m, hm⟩, ⟨p, hp⟩, ⟨n, hn⟩, ⟨r, hr⟩, ⟨fallback, hfallback⟩⟩ hstop
  · rintro (⟨⟨hobj, hwritable, hkeys, hversion, ⟨t, htask, heq⟩, ⟨id, hid⟩, ⟨budget, hbudget⟩⟩, hstrategy⟩ |
      ⟨⟨⟨hobj, hwritable, hkeys, hversion, ⟨t, htask, heq⟩, ⟨id, hid⟩, ⟨budget, hbudget⟩⟩, hstrategy, ⟨refs, hrefs⟩,
        ⟨capabilities, hcapabilities, hne⟩, ⟨m, hm⟩, ⟨p, hp⟩, ⟨n, hn⟩, ⟨r, hr⟩, ⟨fallback, hfallback⟩⟩, hstop⟩)
    · exact ⟨⟨hobj, hwritable⟩, hkeys, hversion, t, htask, heq, id, hid, budget, hbudget, .inl hstrategy⟩
    · exact ⟨⟨hobj, hwritable⟩, hkeys, hversion, t, htask, heq, id, hid, budget, hbudget,
        .inr ⟨hstrategy, refs, hrefs, capabilities, hcapabilities, hne, m, hm, p, hp, n, hn, r, hr, fallback, hfallback, hstop⟩⟩

theorem not_raises_expectedPlan {plan executed : Json} : ¬Raises Untyped (expectedPlan plan executed) := by
  simp only [expectedPlan]
  split_ifs
  · simp
  · split
    · simp only [raises_bind, raises_ensure, raises_ok, not_untyped_protocol, and_false, exists_false, or_false, not_false_eq_true]
    · simp

theorem raises_executedPlan {v plan : Json} {request : Planning.Request} {source : Planning.Plan} :
    Raises Untyped (executedPlan v plan request source) ↔ PlanUnhashable request.taskId.1 v := by
  simp only [executedPlan, raises_bind, raises_ensure, raises_ok, raises_validatePlan, not_raises_expectedPlan, not_untyped_protocol,
    and_false, exists_false, or_false]

theorem not_raises_sourceScope {x : Planning.SourcePlan} {sourceIds : List Str} {selection binding permission : String} :
    ¬Raises Untyped (sourceScope x sourceIds selection binding permission) := by
  have hselections : ∀ l : List Planning.Selection, ¬Raises Untyped (l.forM fun s =>
      ensure (s.sourceRef.1 ∈ sourceIds ∧ s.provider.1 ∈ sourceIds) (.protocol selection)) :=
    fun l => not_raises_forM fun _ _ => not_raises_ensure (not_untyped_protocol _)
  have hbindings : ∀ l : List Planning.Descriptor, ¬Raises Untyped (l.forM fun d => do
      ensure (d.objectRef.1 ∈ sourceIds ∧ d.sourceId.1 ∈ sourceIds) (.protocol binding)
      ensure (d.permission = .permitted) (.protocol permission)) := by
    refine fun l => not_raises_forM fun _ _ => ?_
    simp only [raises_bind, raises_ensure, not_untyped_protocol, and_false, exists_false, or_false, not_false_eq_true]
  simp only [sourceScope, raises_bind, hselections, hbindings, and_false, exists_false, or_false, not_false_eq_true]

theorem Invocation.not_raises_parse {v : Json} : ¬Raises Untyped (parse v) := by
  have href : ∀ w message, ¬Raises Untyped (ref w message) := fun _ _ => not_raises_stringOf
  have hdigest : ∀ w label message, ¬Raises Untyped (wrapping (validateDigest w label) message) :=
    fun _ _ _ => not_raises_wrapping Planning.not_raises_validateDigest
  simp only [parse, raises_bind, raises_ensure, mapping_eq_ok, Enterprise.exactKeys_eq_ok, exactVersion_eq_ok, ensure_eq_ok, exists_const,
    href, hdigest, not_raises_mapping, Enterprise.not_raises_exactKeys, not_raises_exactVersion, not_raises_plainText, not_raises_text,
    not_untyped_protocol, and_false, false_or]
  rintro ⟨-, -, -, id, -, -, -, e, -, version, -, -, -, -, -, -, -, policy, -, input, -, digest, -, h⟩
  split at h
  · simp only [raises_bind, raises_ensure, raises_ok, raises_mapM, href, not_untyped_protocol, and_false, exists_false, or_false] at h
  · exact not_untyped_protocol _ (raises_error.mp h)

theorem not_raises_digestSuffix {value : Str} {start field : String} : ¬Raises Untyped (digestSuffix value start field) := by
  simp only [digestSuffix, raises_bind, raises_ensure, not_raises_wrapping Planning.not_raises_validateDigest, not_untyped_protocol,
    and_false, exists_false, or_false, not_false_eq_true]

theorem not_raises_lineageKind {kinds : List (String × Digest × String)} {r : Str} : ¬Raises Untyped (lineageKind kinds r) := by
  unfold lineageKind
  split
  · simp
  · simp only [raises_bind, raises_ensure, raises_ok, not_raises_digestSuffix, not_untyped_protocol, and_false, exists_false, or_false,
      not_false_eq_true]

theorem not_raises_validateLineage {i : Invocation} {sourcePlan plan task : Digest} :
    ¬Raises Untyped (validateLineage i sourcePlan plan task) := by
  simp only [validateLineage, raises_bind, raises_ensure, raises_mapM, not_raises_digestSuffix, not_raises_lineageKind,
    not_untyped_protocol, and_false, exists_false, or_false, not_false_eq_true]

theorem Receipt.not_raises_parse {v : Json} : ¬Raises Untyped (parse v) := by
  have href : ∀ w message, ¬Raises Untyped (Invocation.ref w message) := fun _ _ => not_raises_stringOf
  simp only [parse, raises_bind, raises_ensure, raises_ok, href, not_raises_wrapping Planning.not_raises_validateDigest,
    not_raises_mapping, Enterprise.not_raises_exactKeys, not_raises_text, not_untyped_protocol, and_false, exists_false, or_false,
    not_false_eq_true]

/-! ### The reader of the bytes -/

/-- `except ValidationError: raise InstanceProtocolError(message)` around a reader of bytes. -/
def wrappingWith {α : Type} (x : Except ResponseError α) (message : String) : Except ResponseError α :=
  catching x fun
    | .raised (.validation _) => .raised (.protocol message)
    | e => e

/-- The task and the plan of a request, as `validate_execution_request` returns them. -/
structure Validated (request : Planning.Request) (tenantId : Str) where
  task : Json
  plan : Json
  valid : ∃ t p, validateRequest t p request tenantId = .ok (task, plan)

section
variable {deep : Bytes → Bool} {raw : Bytes} {request : Planning.Request} {sourceIds : List Str} {tenantId : Str} {revision : Nat}
  {binding : Digest} {time : Option Str}

/-- `parse_source_execution_response(raw, request, source_ids, task, plan, tenant_id, expected_governance_revision,
    expected_binding_digest, planning_evaluation_time)` on an interpreter the decoder of which runs out of stack on the texts that are
    `deep`. -/
def parseResponse (deep : Bytes → Bool) (raw : Bytes) (request : Planning.Request) (sourceIds : List Str) (tenantId : Str)
    (x : Validated request tenantId) (revision : Nat) (binding : Digest) (time : Option Str) : Except ResponseError Response := do
  ensure (deep raw = false) .recursion
  let value ← catching (loads raw "Enterprise instance source execution response is not valid JSON") .raised
  catching (exactKeys value wrapperKeys "Enterprise source execution response wrapper is invalid") .raised
  catching (exactVersion (value.get "schema_version") "response.schema_version" true) .raised
  ensure (value.get "tenant_id" = .str tenantId)
    (.raised (.protocol "Enterprise source execution response tenant binding does not match"))
  let found ← catching (integer (value.get "governance_revision") "response.governance_revision" maxU64 true) .raised
  ensure (found = revision) (.raised (.protocol "Enterprise source execution governance revision does not match"))
  let v := value.get "execution"
  catching (mapping v "execution" true) .raised
  catching (exactKeys v executionKeys "Enterprise source execution fields do not match the v1 contract") .raised
  catching (exactVersion (v.get "schema_version") "execution.schema_version" true) .raised
  catching (exactVersion (v.get "transport_version") "execution.transport_version" true) .raised
  ensure (v.get "engine_interface_version" = .str Planning.interfaceVersion)
    (.raised (.protocol "Enterprise source execution Engine interface is unsupported"))
  let source ← wrappingWith (do
      let data ← catching (Planning.canonical (v.get "source_plan")) .raised
      Planning.parseSourcePlan deep data request none) "Enterprise source execution source plan is invalid"
  catching (sourceScope source sourceIds "source execution selection is outside requested sources"
    "source execution binding is outside requested sources" "source execution selected source is not permitted") .raised
  ensure (source.bindingDigest = binding) (.raised (.protocol "Enterprise source execution binding digest does not match"))
  let executed ← catching (executedPlan (v.get "execution_plan") x.plan request source.plan) .raised
  ensure (∀ t ∈ time, evaluationTime source.plan = .str t)
    (.raised (.protocol "Enterprise source execution changed the evaluation time"))
  catching (joined v x.task (Response.mk tenantId found source executed)) .raised

theorem wrappingWith_raised {α : Type} (x : Except InstanceError α) (message : String) :
    wrappingWith (catching x .raised) message = catching (wrapping x message) .raised := by
  cases x with
  | ok a => rfl
  | error e => cases e <;> rfl

/-- Where the decoder has stack enough, the reader is the one without it. -/
theorem parseResponse_of_shallow (h : ∀ data, deep data = false) (x : Validated request tenantId) :
    parseResponse deep raw request sourceIds tenantId x revision binding time =
      catching (parse raw request sourceIds x.task x.plan tenantId revision binding.1 time) .raised := by
  have hbinding : validateDigest (.str binding.1) "expected_binding_digest" = .ok binding := validateDigest_eq_ok.mpr rfl
  simp only [parseResponse, parse, h, Planning.parseSourcePlan_of_shallow h, hbinding, catching_bind, catching_ensure, ok_bind,
    ← wrappingWith_raised, ensure_of_true]

/-- What the reader checks of the answer before the source plan. -/
structure WrapperRead (tenantId : Str) (revision : Nat) (value : Json) : Prop where
  keys : value.hasExactly wrapperKeys = true
  schema : value.get "schema_version" = .int 1
  tenant : value.get "tenant_id" = .str tenantId
  revision : value.get "governance_revision" = .int revision ∧ revision ≤ maxU64
  isObj : (value.get "execution").isObj = true
  writable : (value.get "execution").Writable
  executionKeys : (value.get "execution").hasExactly executionKeys = true
  executionSchema : (value.get "execution").get "schema_version" = .int 1
  transport : (value.get "execution").get "transport_version" = .int 1
  engineInterface : (value.get "execution").get "engine_interface_version" = .str Planning.interfaceVersion

/-- What it checks of the source plan, which it reads from its canonical bytes. -/
structure SourceRead (deep : Bytes → Bool) (request : Planning.Request) (sourceIds : List Str) (binding : Digest) (v : Json)
    (source : Planning.SourcePlan) : Prop where
  read : ∃ data, (v.get "source_plan").canonicalBytes? = some data ∧ Planning.parseSourcePlan deep data request none = .ok source
  scope : sourceScope source sourceIds "source execution selection is outside requested sources"
    "source execution binding is outside requested sources" "source execution selected source is not permitted" = .ok ()
  binding : source.bindingDigest = binding

/-- The observation of an execution, the view and the invocation of which are read, has a value that cannot be hashed. -/
structure ObservationUnhashable (v : Json) : Prop where
  view : ∃ view, InstanceView.parse (v.get "view") = .ok view ∧ (view.outputDigest.isSome = true ∧ view.outputRef.isSome = true) ∧
    view.text.1.utf8Length ≤ maxViewBytes
  observation : ∃ i, Invocation.parse (v.get "invocation") = .ok i ∧
    EngineObservation.Unhashable i.invocationId.1 (v.get "observation")

/-- Where the reader of an execution raises another exception than `InstanceProtocolError`: the text, or that of the source plan in it,
    is nested too deep, or a list or an object stands in the plan or in the observation where a name is looked up. -/
inductive ExecutionFails (deep : Bytes → Bool) (raw : Bytes) (request : Planning.Request) (sourceIds : List Str) (tenantId : Str)
    (plan : Json) (revision : Nat) (binding : Digest) (time : Option Str) : Prop
  | nested (nested : deep raw = true)
  | source (shallow : deep raw = false) (value : Json) (decoded : Json.strictLoads? raw = some value)
      (wrapper : WrapperRead tenantId revision value) (data : Bytes)
      (canonical : ((value.get "execution").get "source_plan").canonicalBytes? = some data) (asked : Returns request.toDict)
      (fails : Planning.SourceAnswerFails deep data)
  | plan (shallow : deep raw = false) (value : Json) (decoded : Json.strictLoads? raw = some value)
      (wrapper : WrapperRead tenantId revision value) (source : Planning.SourcePlan)
      (read : SourceRead deep request sourceIds binding (value.get "execution") source)
      (unhashable : PlanUnhashable request.taskId.1 ((value.get "execution").get "execution_plan"))
  | observation (shallow : deep raw = false) (value : Json) (decoded : Json.strictLoads? raw = some value)
      (wrapper : WrapperRead tenantId revision value) (source : Planning.SourcePlan)
      (read : SourceRead deep request sourceIds binding (value.get "execution") source) (executed : Json)
      (joins : executedPlan ((value.get "execution").get "execution_plan") plan request source.plan = .ok executed)
      (times : ∀ t ∈ time, evaluationTime source.plan = .str t) (unhashable : ObservationUnhashable (value.get "execution"))

theorem not_raises_canonical {v : Json} (h : v.Writable) : ¬Raises Untyped (Planning.canonical v) := by
  obtain ⟨b, hb⟩ := h
  rw [Planning.canonical_eq_ok.mpr hb]
  exact raises_ok b

theorem isString_of_isField {s : Str} (h : isField maxRefBytes false true s = true) : isString Instance.maxRefBytes s = true := by
  simp only [isField, isString, Bool.and_eq_true] at h ⊢
  exact ⟨⟨h.1.1.1, h.1.1.2.1.2⟩, h.1.1.2.2⟩

theorem raises_joined {v task : Json} {f : InstanceView → Invocation → EngineObservation → Receipt → Response}
    (hsource : (v.get "source_plan").Writable) (hplan : (v.get "execution_plan").Writable) (htask : task.Writable) :
    Raises Untyped (joined v task f) ↔ ObservationUnhashable v := by
  have hobservation : ∀ (w : Json) (i : Field maxRefBytes false true),
      Raises Untyped (EngineObservation.parse w i.1) ↔ EngineObservation.Unhashable i.1 w :=
    fun w i => @EngineObservation.raises_parse w ⟨i.1, isString_of_isField i.2⟩
  simp only [joined, raises_bind, raises_ensure, raises_ok, hobservation, ensure_eq_ok, exists_const, InstanceView.not_raises_parse,
    Invocation.not_raises_parse, Receipt.not_raises_parse, not_raises_canonical hsource, not_raises_canonical hplan,
    not_raises_canonical htask, not_raises_validateLineage, not_untyped_protocol, and_false, exists_false, or_false, false_or]
  constructor
  · rintro ⟨view, hview, hbound, hlength, i, hi, hraises⟩
    exact ⟨⟨view, hview, hbound, hlength⟩, i, hi, hraises⟩
  · rintro ⟨⟨view, hview, hbound, hlength⟩, i, hi, hraises⟩
    exact ⟨view, hview, hbound, hlength, i, hi, hraises⟩

theorem Validated.writable_task (x : Validated request tenantId) : x.task.Writable := by
  obtain ⟨t, p, hvalid⟩ := x.valid
  simp only [validateRequest, bind_eq_ok, Except.ok.injEq, Prod.mk.injEq] at hvalid
  obtain ⟨task, htask, plan, -, -, -, -, -, -, -, rfl, -⟩ := hvalid
  simp only [validateTask, bind_eq_ok, Planning.canonical_eq_ok, Except.ok.injEq] at htask
  obtain ⟨-, -, -, -, -, -, id, -, -, -, -, -, -, -, s, -, -, -, -, -, -, -, -, -, -, -, -, -, -, -, b, hb, -, -, heq⟩ := htask
  rw [← heq]
  exact ⟨b, hb⟩

theorem writable_of_executedPlan {v plan executed : Json} {source : Planning.Plan}
    (h : executedPlan v plan request source = .ok executed) : v.Writable := by
  simp only [executedPlan, validatePlan, bind_eq_ok, mapping_eq_ok] at h
  obtain ⟨-, ⟨-, ⟨-, hwritable⟩, -⟩, -⟩ := h
  exact hwritable

/-! ### Exactly there it raises -/

/-- `InstanceProtocolError` is the typed exception of the reader of an execution. -/
def Uncaught (e : ResponseError) : Prop := ¬e.IsTyped

theorem not_uncaught (m : String) : ¬Uncaught (.raised (.protocol m)) := not_not_intro trivial

theorem raises_raised {α : Type} {x : Except InstanceError α} : Raises Uncaught (catching x .raised) ↔ Raises Untyped x :=
  raises_catching

theorem wrappingWith_eq_ok {α : Type} {x : Except ResponseError α} {message : String} {a : α} :
    wrappingWith x message = .ok a ↔ x = .ok a := catching_eq_ok

/-- What is not caught of a reader of canonical bytes is what is no error of validation. -/
theorem raises_wrappingWith {α : Type} {x : Except ResponseError α} {message : String}
    (h : ∀ e, x = .error (.raised e) → e.IsValidation) :
    Raises Uncaught (wrappingWith x message) ↔ Raises Planning.Uncaught x := by
  cases x with
  | ok a => exact iff_of_false nofun nofun
  | error e =>
    cases e with
    | recursion => exact iff_of_true ⟨_, rfl, not_false⟩ ⟨_, rfl, not_false⟩
    | raised e =>
      have he := h e rfl
      cases e with
      | validation m =>
        refine iff_of_false ?_ ?_
        · rintro ⟨_, heq, hd⟩
          cases heq
          exact hd trivial
        · rintro ⟨_, heq, hd⟩
          cases heq
          exact hd trivial
      | _ => exact he.elim

theorem raises_sourcePlan {v : Json} {message : String} :
    Raises Uncaught (wrappingWith (do
      let data ← catching (Planning.canonical v) .raised
      Planning.parseSourcePlan deep data request none) message) ↔
      ∃ data, v.canonicalBytes? = some data ∧ Returns request.toDict ∧ Planning.SourceAnswerFails deep data := by
  have hP : ∀ e, Planning.Uncaught (.raised e) ↔ Unvalidated e := fun _ => Iff.rfl
  have hrecursion : Planning.Uncaught .recursion := not_false
  rw [raises_wrappingWith]
  · simp only [raises_bind, Planning.raises_raised hP, Planning.raises_parseSourcePlan hP, Planning.not_raises_canonical, catching_eq_ok,
      Planning.canonical_eq_ok, false_or, hrecursion, and_true]
  · intro e he
    cases hdata : v.canonicalBytes? with
    | none =>
      simp only [Planning.canonical, hdata] at he
      cases he
      trivial
    | some data =>
      rw [Planning.canonical_eq_ok.mpr hdata, catching_ok, ok_bind] at he
      exact Planning.isValidation_of_parseSourcePlan he

/-- The reader of an execution raises another exception than `InstanceProtocolError` exactly there. -/
theorem raises_parseResponse {x : Validated request tenantId} :
    Raises Uncaught (parseResponse deep raw request sourceIds tenantId x revision binding time) ↔
      ExecutionFails deep raw request sourceIds tenantId x.plan revision binding time := by
  have hrecursion : Uncaught .recursion := not_false
  have hdeep : deep raw ≠ false ↔ deep raw = true := by simp
  simp only [parseResponse, raises_bind, raises_ensure, raises_raised, raises_sourcePlan, wrappingWith_eq_ok, bind_eq_ok, catching_eq_ok,
    Planning.canonical_eq_ok, loads_eq_ok, exactKeys_eq_ok, exactVersion_eq_ok, mapping_eq_ok, integer_eq_ok, ensure_eq_ok, exists_const,
    raises_executedPlan, not_raises_loads, Enterprise.not_raises_exactKeys, not_raises_exactVersion, not_raises_integer,
    not_raises_mapping, not_raises_sourceScope, not_uncaught, hrecursion, hdeep, and_false, and_true, false_or]
  constructor
  · rintro (hnested | ⟨hshallow, value, hdecoded, hkeys, hschema, htenant, n, hrevision, rfl, ⟨hobj, hwritable⟩, hfields, hversion,
      htransport, hinterface, ⟨data, hdata, hasked, hfails⟩ | ⟨source, ⟨data, hdata, hsource⟩, u, hscope, hbinding,
        hplan | ⟨executed, hexecuted, htimes, hjoined⟩⟩⟩)
    · exact .nested hnested
    · exact .source hshallow value hdecoded ⟨hkeys, hschema, htenant, hrevision, hobj, hwritable, hfields, hversion, htransport,
        hinterface⟩ data hdata hasked hfails
    · exact .plan hshallow value hdecoded ⟨hkeys, hschema, htenant, hrevision, hobj, hwritable, hfields, hversion, htransport,
        hinterface⟩ source ⟨⟨data, hdata, hsource⟩, hscope, hbinding⟩ hplan
    · exact .observation hshallow value hdecoded ⟨hkeys, hschema, htenant, hrevision, hobj, hwritable, hfields, hversion, htransport,
        hinterface⟩ source ⟨⟨data, hdata, hsource⟩, hscope, hbinding⟩ executed hexecuted htimes
        ((raises_joined ⟨data, hdata⟩ (writable_of_executedPlan hexecuted) x.writable_task).mp hjoined)
  · intro h
    cases h with
    | nested hnested => exact .inl hnested
    | source hshallow value hdecoded w data hdata hasked hfails =>
      exact .inr ⟨hshallow, value, hdecoded, w.keys, w.schema, w.tenant, revision, w.revision, rfl, ⟨w.isObj, w.writable⟩,
        w.executionKeys, w.executionSchema, w.transport, w.engineInterface, .inl ⟨data, hdata, hasked, hfails⟩⟩
    | plan hshallow value hdecoded w source hread hplan =>
      exact .inr ⟨hshallow, value, hdecoded, w.keys, w.schema, w.tenant, revision, w.revision, rfl, ⟨w.isObj, w.writable⟩,
        w.executionKeys, w.executionSchema, w.transport, w.engineInterface,
        .inr ⟨source, hread.read, (), hread.scope, hread.binding, .inl hplan⟩⟩
    | observation hshallow value hdecoded w source hread executed hexecuted htimes hobserved =>
      obtain ⟨data, hdata, -⟩ := hread.read
      exact .inr ⟨hshallow, value, hdecoded, w.keys, w.schema, w.tenant, revision, w.revision, rfl, ⟨w.isObj, w.writable⟩,
        w.executionKeys, w.executionSchema, w.transport, w.engineInterface,
        .inr ⟨source, hread.read, (), hread.scope, hread.binding, .inr ⟨executed, hexecuted, htimes,
          (raises_joined ⟨data, hdata⟩ (writable_of_executedPlan hexecuted) x.writable_task).mpr hobserved⟩⟩⟩

/-! ### All three readers -/

end

namespace SurrogateSample
open Json

def request : Planning.Request := .sample

/-- A context plan an extension of which is the escape of an unpaired surrogate. -/
def raw : Bytes := (Str.lit ("\x7b\"engine_interface_version\":\"1.0.0\",\"plan\":\x7b\"budget_tokens\":0,\"context_plan_id\":\"c\"," ++
  "\"schema_version\":1,\"selections\":[],\"task_id\":\"t\",\"x\":\"\\ud800\"\x7d,\"schema_version\":1," ++
  "\"transport_version\":1\x7d")).flatMap Str.encodePoint

def plan : Json :=
  mkObj [("budget_tokens", .int 0), ("context_plan_id", .str "c"), ("schema_version", .int 1), ("selections", .arr []),
    ("task_id", .str "t"), ("x", .str [0xD800])]

def answer : Json :=
  mkObj [("engine_interface_version", .str "1.0.0"), ("plan", plan), ("schema_version", .int 1), ("transport_version", .int 1)]

theorem strictLoads_raw : strictLoads? raw = some answer := by decide +kernel

theorem unencodable_plan : Planning.Plan.Unencodable plan := by
  have hrequired : ∀ k ∈ Planning.Plan.required, (plan.get? k).isSome = true := by decide
  refine .extension rfl hrequired ⟨[], Str.lit "x", .str [0xD800], [], by decide, nofun, by decide, ?_⟩
  exact .str (by decide) (by decide)

end SurrogateSample

end Execution
end LeanCtx.Enterprise
