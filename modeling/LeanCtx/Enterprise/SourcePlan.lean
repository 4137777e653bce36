import LeanCtx.Enterprise.Planning

/-! The answer of a planner, read as `planning.py` reads it: the plan with its selections, its statistics and its evidence, and
    the bindings of the selected sources. The projection digest binds the plan and the binding digest binds both. -/

namespace LeanCtx.Planning

def schemaVersion : Nat := 1
def transportVersion : Nat := 1
def interfaceVersion : String := "1.0.0"
def maxU64 : Nat := 18446744073709551615
def maxRequestBytes : Nat := 65536
def maxQueryBytes : Nat := 16384
def maxTokens : Nat := 1048576
def maxCandidates : Nat := 256
def maxSources : Nat := 64
def maxContentBytes : Nat := 65536
def maxResponseBytes : Nat := 16777216

/-- An optional member: nothing is written where there is none. -/
def field {α : Type} (key : String) (f : α → Json) (o : Option α) : List (Str × Json) :=
  o.toList.map fun a => (Str.lit key, f a)

/-- A member that is read where it is present and not null. -/
def optional {α : Type} (f : Json → Except InstanceError α) (v : Json) (key : String) : Except InstanceError (Option α) :=
  match v.get? key with
  | none => .ok none
  | some .null => .ok none
  | some w => some <$> f w

/-! ### Sources -/

inductive SourceType
  | filesystem
  | issueTracker
  | relationalDatabase
  | other
deriving DecidableEq

namespace SourceType

def name : SourceType → String
  | filesystem => "filesystem"
  | issueTracker => "issue_tracker"
  | relationalDatabase => "relational_database"
  | other => "other"

def all : List SourceType := [filesystem, issueTracker, relationalDatabase, other]

end SourceType

inductive Permission
  | permitted
  | denied
  | unknown
deriving DecidableEq

namespace Permission

def name : Permission → String
  | permitted => "permitted"
  | denied => "denied"
  | unknown => "unknown"

def all : List Permission := [permitted, denied, unknown]

end Permission

inductive Classification
  | publicData
  | internalData
  | confidential
  | restricted
deriving DecidableEq

namespace Classification

def name : Classification → String
  | publicData => "Public"
  | internalData => "Internal"
  | confidential => "Confidential"
  | restricted => "Restricted"

def all : List Classification := [publicData, internalData, confidential, restricted]

end Classification

/-- What an instance binds to a source: its descriptor. -/
structure Descriptor where
  objectRef : Reference
  sourceId : Identifier
  sourceType : SourceType
  contentDigest : Digest
  revision : Option Reference
  owner : Option Reference
  observedAt : Option Timestamp
  validUntil : Option Timestamp
  classification : Option Classification
  permission : Permission
deriving DecidableEq

namespace Descriptor

def keys : List String :=
  ["object_ref", "source_id", "source_type", "content_digest", "revision", "owner", "observed_at", "valid_until",
    "classification", "permission"]

def required : List String := ["object_ref", "source_id", "source_type", "content_digest"]

/-- The normalized descriptor, which names every member. -/
def toDict (d : Descriptor) : Json :=
  Json.mkObj [("object_ref", d.objectRef.json), ("source_id", d.sourceId.json), ("source_type", .str d.sourceType.name),
    ("content_digest", d.contentDigest.json), ("revision", LeanCtx.optional Text.json d.revision),
    ("owner", LeanCtx.optional Text.json d.owner), ("observed_at", LeanCtx.optional Timestamp.json d.observedAt),
    ("valid_until", LeanCtx.optional Timestamp.json d.validUntil),
    ("classification", LeanCtx.optional (fun c => .str (Classification.name c)) d.classification),
    ("permission", .str d.permission.name)]

/-- The time until which a source is valid is after that at which it was observed. -/
def Ordered (observedAt validUntil : Option Timestamp) : Prop :=
  ∀ a ∈ observedAt, ∀ b ∈ validUntil, a.1 < b.1

instance (observedAt validUntil : Option Timestamp) : Decidable (Ordered observedAt validUntil) := by
  unfold Ordered
  infer_instance

/-- `_descriptor(value, field_name)`. -/
def parse (v : Json) (name : String) : Except InstanceError Descriptor := do
  mapping v name
  ensure (v.hasBetween [] keys = true) (.validation (name ++ " fields do not match the v1 contract"))
  ensure (v.hasBetween required keys = true) (.validation (name ++ " is missing a required field"))
  let objectRef ← reference (v.get "object_ref") (name ++ ".object_ref")
  let sourceId ← identifier (v.get "source_id") (name ++ ".source_id")
  let sourceType ← enum SourceType.all SourceType.name (v.get "source_type") (name ++ ".source_type")
  let contentDigest ← Enterprise.validateDigest (v.get "content_digest") (name ++ ".content_digest")
  let revision ← optional (reference · (name ++ ".revision")) v "revision"
  let owner ← optional (reference · (name ++ ".owner")) v "owner"
  let observedAt ← optional (timestamp · (name ++ ".observed_at")) v "observed_at"
  let validUntil ← optional (timestamp · (name ++ ".valid_until")) v "valid_until"
  let permission ← enum Permission.all Permission.name ((v.get? "permission").getD (.str Permission.unknown.name))
    (name ++ ".permission")
  let classification ← optional (enum Classification.all Classification.name · (name ++ ".classification")) v "classification"
  ensure (Ordered observedAt validUntil) (.validation (name ++ " validity window is inverted"))
  .ok ⟨objectRef, sourceId, sourceType, contentDigest, revision, owner, observedAt, validUntil, classification, permission⟩

end Descriptor

/-- A source with its content. The descriptor holds the digest of the content. -/
structure Source where
  descriptor : Descriptor
  content : Text maxContentBytes false false
  bound : ∃ b, content.1.utf8? = some b ∧ digestOf b = descriptor.contentDigest

/-! ### Requests -/

/-- A request for a plan. -/
structure Request where
  taskId : Identifier
  query : Text maxQueryBytes false true
  budgetTokens : {n : Nat // 1 ≤ n ∧ n ≤ maxTokens}
  candidates : {n : Nat // 1 ≤ n ∧ n ≤ maxCandidates}
deriving DecidableEq

namespace Request

/-- A request for one source and one token. -/
def sample : Request := ⟨⟨"t", by decide⟩, ⟨"q", by decide⟩, ⟨1, by decide⟩, ⟨1, by decide⟩⟩

def fields (r : Request) : List (String × Json) :=
  [("schema_version", .int schemaVersion), ("transport_version", .int transportVersion),
    ("engine_interface_version", .str interfaceVersion), ("task_id", r.taskId.json), ("query", r.query.json),
    ("budget_tokens", .int r.budgetTokens.1), ("max_candidates", .int r.candidates.1)]

/-- `request.to_dict()`. -/
def toDict (r : Request) : Except InstanceError Json := do
  let b ← canonical (Json.mkObj r.fields)
  ensure (b.length ≤ maxRequestBytes) (.validation "Instance context-plan request exceeds its byte bound")
  .ok (Json.mkObj r.fields)

theorem toDict_eq_ok {r : Request} {v : Json} (h : r.toDict = .ok v) : v = Json.mkObj r.fields := by
  simp only [toDict, bind_eq_ok, ensure_eq_ok, Except.ok.injEq] at h
  obtain ⟨-, -, -, -, rfl⟩ := h
  rfl

end Request

/-! ### Selections and evidence -/

inductive Disposition
  | selected
  | excluded
  | deferred
deriving DecidableEq

namespace Disposition

def name : Disposition → String
  | selected => "selected"
  | excluded => "excluded"
  | deferred => "deferred"

def all : List Disposition := [selected, excluded, deferred]

end Disposition

inductive ReasonCode
  | relevant
  | required
  | cacheHit
  | budgetExceeded
  | lowerUtility
  | policyExcluded
  | deferredForLater
  | other
deriving DecidableEq

namespace ReasonCode

def name : ReasonCode → String
  | relevant => "relevant"
  | required => "required"
  | cacheHit => "cache_hit"
  | budgetExceeded => "budget_exceeded"
  | lowerUtility => "lower_utility"
  | policyExcluded => "policy_excluded"
  | deferredForLater => "deferred_for_later"
  | other => "other"

def all : List ReasonCode :=
  [relevant, required, cacheHit, budgetExceeded, lowerUtility, policyExcluded, deferredForLater, other]

end ReasonCode

/-- What a plan does with one source, and why. -/
structure Selection where
  sourceRef : Identifier
  provider : Identifier
  disposition : Disposition
  tokenCount : Nat
  reasonCodes : List ReasonCode
  projection : Option ProjectionDigest
  reasonDetail : Option Identifier
deriving DecidableEq

namespace Selection

def required : List String := ["source_ref", "provider", "disposition", "token_count", "reason_codes"]

def keys : List String := required ++ ["sha256_digest", "reason_detail"]

def toDict (s : Selection) : Json :=
  .obj (Json.sortFields ([(Str.lit "source_ref", s.sourceRef.json), (Str.lit "provider", s.provider.json),
    (Str.lit "disposition", .str s.disposition.name), (Str.lit "token_count", .int s.tokenCount),
    (Str.lit "reason_codes", .arr (s.reasonCodes.map fun c => .str c.name))] ++
    field "sha256_digest" ProjectionDigest.json s.projection ++ field "reason_detail" Text.json s.reasonDetail))

/-- The reason codes of a selection: some, and none twice. -/
def reasons (v : Json) (name : String) : Except InstanceError (List ReasonCode) :=
  match v with
  | .arr l => do
    ensure (l ≠ [] ∧ l.length ≤ maxProtocolItems) (.validation (name ++ ".reason_codes has an invalid shape"))
    let codes ← l.mapM fun c => enum ReasonCode.all ReasonCode.name c (name ++ ".reason_codes")
    ensure codes.Nodup (.validation (name ++ ".reason_codes contains duplicates"))
    .ok codes
  | _ => .error (.validation (name ++ ".reason_codes has an invalid shape"))

/-- `_selection(value, field_name)`. -/
def parse (v : Json) (name : String) : Except InstanceError Selection := do
  mapping v name
  ensure (v.hasBetween required keys = true) (.validation (name ++ " fields do not match the v1 contract"))
  let codes ← reasons (v.get "reason_codes") name
  let sourceRef ← identifier (v.get "source_ref") (name ++ ".source_ref")
  let provider ← identifier (v.get "provider") (name ++ ".provider")
  let disposition ← enum Disposition.all Disposition.name (v.get "disposition") (name ++ ".disposition")
  let tokenCount ← integer (v.get "token_count") (name ++ ".token_count") 0 maxU64
  let projection ← optional (projectionDigest · (name ++ ".sha256_digest")) v "sha256_digest"
  let reasonDetail ← optional (identifier · (name ++ ".reason_detail")) v "reason_detail"
  .ok ⟨sourceRef, provider, disposition, tokenCount, codes, projection, reasonDetail⟩

end Selection

inductive EvidenceKind
  | providerReceipt
  | runtimeLog
  | signedBatch
  | qualityMeasurement
  | experimentOutcome
deriving DecidableEq

namespace EvidenceKind

def name : EvidenceKind → String
  | providerReceipt => "ProviderReceipt"
  | runtimeLog => "RuntimeLog"
  | signedBatch => "SignedBatch"
  | qualityMeasurement => "QualityMeasurement"
  | experimentOutcome => "ExperimentOutcome"

def all : List EvidenceKind := [providerReceipt, runtimeLog, signedBatch, qualityMeasurement, experimentOutcome]

end EvidenceKind

inductive SignatureStatus
  | verified
  | unverified
  | notSigned
deriving DecidableEq

namespace SignatureStatus

def name : SignatureStatus → String
  | verified => "Verified"
  | unverified => "Unverified"
  | notSigned => "NotSigned"

def all : List SignatureStatus := [verified, unverified, notSigned]

end SignatureStatus

/-- A reference to evidence for a plan. A versioned one has a digest of a known form. -/
structure Evidence where
  versioned : Bool
  kind : EvidenceKind
  uri : Identifier
  digest : Identifier
  signatureStatus : SignatureStatus
  mediaType : Option Identifier
  extensions : List (Str × Json)
deriving DecidableEq

namespace Evidence

def keys : List String := ["schema_version", "kind", "uri", "digest", "signature_status", "media_type"]

def toDict (e : Evidence) : Json :=
  .obj (Json.sortFields ((if e.versioned then [(Str.lit "schema_version", .int 1)] else []) ++
    [(Str.lit "kind", .str e.kind.name), (Str.lit "uri", e.uri.json), (Str.lit "digest", e.digest.json),
      (Str.lit "signature_status", .str e.signatureStatus.name)] ++ field "media_type" Text.json e.mediaType ++ e.extensions))

/-- `_evidence(value, field_name)`. -/
def parse (v : Json) (name : String) : Except InstanceError Evidence := do
  mapping v name
  let extra ← Planning.extensions v keys
  ensure (["kind", "uri", "digest", "signature_status"].all fun k => (v.get? k).isSome)
    (.validation (name ++ " is missing a required field"))
  let version ← optional (integer · (name ++ ".schema_version") 1 1) v "schema_version"
  let kind ← enum EvidenceKind.all EvidenceKind.name (v.get "kind") (name ++ ".kind")
  let uri ← identifier (v.get "uri") (name ++ ".uri")
  let digest ← identifier (v.get "digest") (name ++ ".digest")
  ensure (version.isSome → isHexDigest (Str.dropPrefix "blake3:" (Str.dropPrefix "sha256:" digest.1)) = true)
    (.validation (name ++ ".digest is not a supported versioned digest"))
  let signatureStatus ← enum SignatureStatus.all SignatureStatus.name (v.get "signature_status") (name ++ ".signature_status")
  let mediaType ← optional (identifier · (name ++ ".media_type")) v "media_type"
  .ok ⟨version.isSome, kind, uri, digest, signatureStatus, mediaType, extra⟩

end Evidence

/-- What a provider offered, and what of it was selected. -/
structure Stats where
  offered : Nat
  selected : Nat
  tokensUsed : Nat
deriving DecidableEq

namespace Stats

def toDict (s : Stats) : Json :=
  Json.mkObj [("candidates_offered", .int s.offered), ("candidates_selected", .int s.selected), ("tokens_used", .int s.tokensUsed)]

def parse (v : Json) : Except InstanceError Stats := do
  mapping v "plan.provider_stats entry"
  exactKeys v ["candidates_offered", "candidates_selected", "tokens_used"] "plan.provider_stats entry"
  let offered ← integer (v.get "candidates_offered") "plan.provider_stats.candidates_offered" 0 maxU64
  let selected ← integer (v.get "candidates_selected") "plan.provider_stats.candidates_selected" 0 maxU64
  ensure (selected ≤ offered) (.validation "plan.provider_stats selected exceeds offered")
  let tokensUsed ← integer (v.get "tokens_used") "plan.provider_stats.tokens_used" 0 maxU64
  .ok ⟨offered, selected, tokensUsed⟩

/-- The statistics of the providers, in the order of the object. -/
def parseAll : Json → Except InstanceError (List (Identifier × Stats))
  | .obj f => do
    ensure (f.length ≤ maxProtocolItems) (.validation "plan.provider_stats exceeds its item bound")
    f.mapM fun p => do
      let provider ← identifier (.str p.1) "plan.provider_stats key"
      return (provider, ← parse p.2)
  | _ => .error (.validation "plan.provider_stats must be an object")

end Stats

/-! ### Plans -/

/-- A plan. The members that are empty are not written. -/
structure Plan where
  contextPlanId : Identifier
  taskId : Identifier
  budgetTokens : Nat
  selections : List Selection
  projectionDigest : Option Digest
  providerStats : List (Identifier × Stats)
  policyDecisionRefs : List Identifier
  evidence : List Evidence
  extensions : List (Str × Json)
deriving DecidableEq

namespace Plan

def required : List String := ["schema_version", "context_plan_id", "task_id", "budget_tokens", "selections"]

def keys : List String :=
  ["schema_version", "context_plan_id", "task_id", "projection_digest", "budget_tokens", "selections", "provider_stats",
    "policy_decision_refs", "evidence"]

def fields (p : Plan) : List (Str × Json) :=
  [(Str.lit "schema_version", .int schemaVersion), (Str.lit "context_plan_id", p.contextPlanId.json),
    (Str.lit "task_id", p.taskId.json), (Str.lit "budget_tokens", .int p.budgetTokens),
    (Str.lit "selections", .arr (p.selections.map Selection.toDict))] ++
    (if p.providerStats = [] then []
      else [(Str.lit "provider_stats", .obj (Json.sortFields (p.providerStats.map fun x => (x.1.1, x.2.toDict))))]) ++
    (if p.policyDecisionRefs = [] then []
      else [(Str.lit "policy_decision_refs", .arr (p.policyDecisionRefs.map Text.json))]) ++
    (if p.evidence = [] then [] else [(Str.lit "evidence", .arr (p.evidence.map Evidence.toDict))]) ++ p.extensions

/-- The plan without its projection digest. -/
def unsigned (p : Plan) : Json := .obj (Json.sortFields p.fields)

def toDict (p : Plan) : Json :=
  .obj (Json.sortFields (field "projection_digest" Digest.json p.projectionDigest ++ p.fields))

/-- The tokens of the sources that a plan selects. -/
def selectedTokens (l : List Selection) : Nat := ((l.filter fun s => s.disposition = .selected).map (·.tokenCount)).sum

/-- The items of a list, each read with its place. -/
def items {α : Type} (f : Json → String → Except InstanceError α) (v : Json) (name : String) : Except InstanceError (List α) :=
  match v with
  | .arr l => do
    ensure (l.length ≤ maxProtocolItems) (.validation (name ++ " has an invalid shape"))
    l.zipIdx.mapM fun p => f p.1 (name ++ "[" ++ toString p.2 ++ "]")
  | _ => .error (.validation (name ++ " has an invalid shape"))

/-- A member that is read where it is present, a null too. -/
def present {α : Type} (f : Json → Except InstanceError (List α)) (v : Json) (key : String) : Except InstanceError (List α) :=
  match v.get? key with
  | none => .ok []
  | some w => f w

def policyRefs (v : Json) : Except InstanceError (List Identifier) := do
  let refs ← items (fun r _ => identifier r "plan.policy_decision_refs") v "plan.policy_decision_refs"
  ensure refs.Nodup (.validation "plan.policy_decision_refs contains duplicates")
  .ok refs

/-- `_plan(value)`. -/
def parse (v : Json) : Except InstanceError Plan := do
  mapping v "plan"
  ensure (required.all fun k => (v.get? k).isSome) (.validation "plan is missing a required field")
  let extra ← Planning.extensions v keys
  let _ ← integer (v.get "schema_version") "plan.schema_version" schemaVersion schemaVersion
  let selections ← items Selection.parse (v.get "selections") "plan.selections"
  ensure ((selections.map (·.sourceRef)).Nodup) (.validation "plan.selections contains duplicate source_ref values")
  let budget ← integer (v.get "budget_tokens") "plan.budget_tokens" 0 maxU64
  ensure (selectedTokens selections ≤ budget) (.validation "plan selected context exceeds budget_tokens")
  let contextPlanId ← identifier (v.get "context_plan_id") "plan.context_plan_id"
  let taskId ← identifier (v.get "task_id") "plan.task_id"
  let digest ← optional (Enterprise.validateDigest · "plan.projection_digest") v "projection_digest"
  let stats ← present Stats.parseAll v "provider_stats"
  let refs ← present policyRefs v "policy_decision_refs"
  let evidence ← present (items Evidence.parse · "plan.evidence") v "evidence"
  let plan : Plan := ⟨contextPlanId, taskId, budget, selections, digest, stats, refs, evidence, extra⟩
  match digest with
  | none => .ok plan
  | some d => do
    let b ← canonical plan.unsigned
    ensure (d = digestOf b) (.validation "plan.projection_digest does not match canonical projection content")
    .ok plan

end Plan

/-! ### Answers -/

/-- The result of planning: a plan in its envelope. -/
def resultDict (p : Plan) : Json :=
  Json.mkObj [("schema_version", .int schemaVersion), ("transport_version", .int transportVersion),
    ("engine_interface_version", .str interfaceVersion), ("plan", p.toDict)]

/-- `_decode(raw, label)`. -/
def decode (raw : Bytes) (label : String) : Except InstanceError Json := do
  ensure (raw.length ≤ maxResponseBytes) (.validation (label ++ " exceeds the response byte bound"))
  match Json.strictLoads? raw with
  | some v => .ok v
  | none => .error (.validation ("invalid " ++ label))

theorem decode_eq_ok {raw : Bytes} {label : String} {v : Json} :
    decode raw label = .ok v ↔ raw.length ≤ maxResponseBytes ∧ Json.strictLoads? raw = some v := by
  rw [decode, ensure_bind_eq_ok]
  cases Json.strictLoads? raw <;> simp

/-- `_header(value, label)`. -/
def header (v : Json) (label : String) : Except InstanceError Unit := do
  let _ ← integer (v.get "schema_version") (label ++ ".schema_version") schemaVersion schemaVersion
  let _ ← integer (v.get "transport_version") (label ++ ".transport_version") transportVersion transportVersion
  ensure (v.get "engine_interface_version" = .str interfaceVersion)
    (.validation (label ++ ".engine_interface_version is unsupported"))

/-- `_response(raw, request)`. -/
def response (raw : Bytes) (request : Request) : Except InstanceError Plan := do
  let v ← decode raw "Instance context-plan response"
  exactKeys v ["schema_version", "transport_version", "engine_interface_version", "plan"] "Instance context-plan response"
  header v "Instance context-plan response"
  let plan ← Plan.parse (v.get "plan")
  ensure (plan.taskId = request.taskId) (.validation "Instance context-plan response task_id does not bind the request")
  ensure (plan.budgetTokens ≤ request.budgetTokens.1)
    (.validation "Instance context-plan response budget exceeds the request")
  .ok plan

/-- A plan with the bindings of the sources that it selects. -/
structure SourcePlan where
  plan : Plan
  bindings : List Descriptor
  bindingDigest : Digest
deriving DecidableEq

namespace SourcePlan

def keys : List String := ["result", "source_bindings", "binding_digest"]

/-- What the binding digest is computed from. -/
def bound (p : Plan) (bindings : List Descriptor) : Json := .arr [resultDict p, .arr (bindings.map Descriptor.toDict)]

def toDict (x : SourcePlan) : Json :=
  Json.mkObj [("result", resultDict x.plan), ("source_bindings", .arr (x.bindings.map Descriptor.toDict)),
    ("binding_digest", x.bindingDigest.json)]

/-- A selection that a binding is for. -/
def Matches (d : Descriptor) (s : Selection) : Prop :=
  s.sourceRef.1 = d.objectRef.1 ∧ s.provider.1 = d.sourceId.1 ∧ s.projection.map (·.1) = some d.contentDigest.1

instance (d : Descriptor) (s : Selection) : Decidable (Matches d s) :=
  inferInstanceAs (Decidable (_ ∧ _))

/-- The bindings of a plan: in the strict order of their references, and one for each selected source. -/
def checkBindings (plan : Plan) (bindings : List Descriptor) : Except InstanceError Unit := do
  ensure ((bindings.map fun d => d.objectRef.1).IsChain (· < ·))
    (.validation "source_bindings must be strictly sorted by object_ref")
  let selected := plan.selections.filter fun s => s.disposition = .selected
  ensure (selected.length = bindings.length) (.validation "source_bindings do not match selected plan entries")
  ensure (∀ d ∈ bindings, ∃ s ∈ selected, Matches d s)
    (.validation "source binding does not match a selected plan entry")

/-- The bindings are among the sources that were asked for. -/
def checkSources (bindings : List Descriptor) : Option (List Source) → Except InstanceError Unit
  | none => .ok ()
  | some sources => do
    ensure (sources.length ≤ maxSources) (.validation "sources has an invalid shape")
    ensure ((sources.map fun s => s.descriptor.objectRef).Nodup)
      (.validation "sources contains duplicate object_ref values")
    ensure (∀ d ∈ bindings, d ∈ sources.map (·.descriptor))
      (.validation "source binding is not present in the requested sources")

/-- `parse_source_plan(raw, request, sources)`. -/
def parse (raw : Bytes) (request : Request) (sources : Option (List Source)) : Except InstanceError SourcePlan := do
  let _ ← request.toDict
  let v ← decode raw "Instance source-plan response"
  exactKeys v keys "Instance source-plan response"
  let plan ← response (← canonical (v.get "result")) request
  ensure (plan.projectionDigest.isSome = true) (.validation "Instance source-plan response requires projection_digest")
  let bindings ← Plan.items Descriptor.parse (v.get "source_bindings") "source_bindings"
  checkBindings plan bindings
  let supplied ← Enterprise.validateDigest (v.get "binding_digest") "binding_digest"
  let b ← canonical (bound plan bindings)
  ensure (supplied = digestOf b) (.validation "binding_digest does not match canonical source bindings")
  checkSources bindings sources
  .ok ⟨plan, bindings, supplied⟩

end SourcePlan
end LeanCtx.Planning
