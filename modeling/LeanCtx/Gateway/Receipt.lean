import LeanCtx.Preview.Fields

/-! The decision receipt of the information gateway: who asked, where the context goes, what was inspected and withheld, and the
    digest of what was delivered, read as `gateway.py` reads it. -/

namespace LeanCtx.Gateway
open Json Preview

/-! ### The kinds of a receipt -/

inductive Mode
  | developer
  | governed
  | sovereign
deriving DecidableEq

def Mode.name : Mode → String
  | .developer => "developer"
  | .governed => "governed"
  | .sovereign => "sovereign"

def Mode.all : List Mode := [.developer, .governed, .sovereign]

inductive PrincipalKind
  | person
  | team
  | organization
  | project
  | agent
  | session
  | workload
  | unknown
deriving DecidableEq

def PrincipalKind.name : PrincipalKind → String
  | .person => "person"
  | .team => "team"
  | .organization => "organization"
  | .project => "project"
  | .agent => "agent"
  | .session => "session"
  | .workload => "workload"
  | .unknown => "unknown"

def PrincipalKind.all : List PrincipalKind := [.person, .team, .organization, .project, .agent, .session, .workload, .unknown]

inductive Locality
  | here
  | remote
  | unknown
deriving DecidableEq

def Locality.name : Locality → String
  | .here => "local"
  | .remote => "remote"
  | .unknown => "unknown"

def Locality.all : List Locality := [.here, .remote, .unknown]

inductive ContextDisposition
  | allow
  | allowMinimized
  | allowRedacted
  | allowSummaryOnly
  | allowLocalModelOnly
  | allowWithApproval
  | quarantine
  | deny
deriving DecidableEq

def ContextDisposition.name : ContextDisposition → String
  | .allow => "allow"
  | .allowMinimized => "allow_minimized"
  | .allowRedacted => "allow_redacted"
  | .allowSummaryOnly => "allow_summary_only"
  | .allowLocalModelOnly => "allow_local_model_only"
  | .allowWithApproval => "allow_with_approval"
  | .quarantine => "quarantine"
  | .deny => "deny"

def ContextDisposition.all : List ContextDisposition :=
  [.allow, .allowMinimized, .allowRedacted, .allowSummaryOnly, .allowLocalModelOnly, .allowWithApproval, .quarantine, .deny]

inductive Transformation
  | redaction
  | classification
  | selection
  | deduplication
  | structuralExtraction
  | compression
  | summarization
  | recovery
  | reranking
deriving DecidableEq

def Transformation.name : Transformation → String
  | .redaction => "redaction"
  | .classification => "classification"
  | .selection => "selection"
  | .deduplication => "deduplication"
  | .structuralExtraction => "structural_extraction"
  | .compression => "compression"
  | .summarization => "summarization"
  | .recovery => "recovery"
  | .reranking => "reranking"

def Transformation.all : List Transformation :=
  [.redaction, .classification, .selection, .deduplication, .structuralExtraction, .compression, .summarization, .recovery, .reranking]

inductive SignalCategory
  | secret
  | pii
  | promptInjection
  | classification
  | policy
  | custom
deriving DecidableEq

def SignalCategory.name : SignalCategory → String
  | .secret => "secret"
  | .pii => "pii"
  | .promptInjection => "prompt_injection"
  | .classification => "classification"
  | .policy => "policy"
  | .custom => "custom"

def SignalCategory.all : List SignalCategory := [.secret, .pii, .promptInjection, .classification, .policy, .custom]

inductive Severity
  | info
  | low
  | medium
  | high
  | critical
deriving DecidableEq

def Severity.name : Severity → String
  | .info => "info"
  | .low => "low"
  | .medium => "medium"
  | .high => "high"
  | .critical => "critical"

def Severity.all : List Severity := [.info, .low, .medium, .high, .critical]

inductive CoverageKind
  | complete
  | part
  | unsupported
  | failed
  | notRequired
deriving DecidableEq

def CoverageKind.name : CoverageKind → String
  | .complete => "complete"
  | .part => "partial"
  | .unsupported => "unsupported"
  | .failed => "failed"
  | .notRequired => "not_required"

def CoverageKind.all : List CoverageKind := [.complete, .part, .unsupported, .failed, .notRequired]

inductive DetectorStatus
  | completed
  | failed
  | timedOut
  | skipped
deriving DecidableEq

def DetectorStatus.name : DetectorStatus → String
  | .completed => "completed"
  | .failed => "failed"
  | .timedOut => "timed_out"
  | .skipped => "skipped"

def DetectorStatus.all : List DetectorStatus := [.completed, .failed, .timedOut, .skipped]

/-! ### Fields -/

def maxDecisions : Nat := 4096

def maxReasonCodes : Nat := 32

def maxSignals : Nat := 32

def maxU32 : Nat := 4294967295

/-- A reference: a text that is not blank, without control characters. -/
def isReference (s : Str) : Bool :=
  !s.all Unicode.isSpace && s.all Str.isScalar && s.utf8Length ≤ maxRefBytes && s.all fun c => 32 ≤ c && c != 127

abbrev Reference := {s : Str // isReference s = true}

/-- `_ref(value, label)`. A text that does not encode raises a `UnicodeEncodeError`. -/
def ref (v : Json) (label : Str) : Except PreviewError Reference :=
  match v with
  | .str s =>
    if h : isReference s = true then .ok ⟨s, h⟩
    else if !s.all Unicode.isSpace && !s.all Str.isScalar then .error .unicode
    else .error (.bad (label ++ Str.lit " must be a bounded reference"))
  | _ => .error (.bad (label ++ Str.lit " must be a bounded reference"))

/-- `^[a-z][a-z0-9_.]{2,63}$`. -/
def isReason : Str → Bool
  | [] => false
  | c :: r => (97 ≤ c && c ≤ 122) && 2 ≤ r.length && r.length ≤ 63 &&
    r.all fun c => (97 ≤ c && c ≤ 122) || (48 ≤ c && c ≤ 57) || c == 95 || c == 46

abbrev ReasonCode := {s : Str // isReason s = true}

def reason (v : Json) (label : Str) : Except PreviewError ReasonCode :=
  match v with
  | .str s => if h : isReason s = true then .ok ⟨s, h⟩ else .error (.bad (label ++ Str.lit " holds an invalid reason code"))
  | _ => .error (.bad (label ++ Str.lit " holds an invalid reason code"))

/-- `_reasons(value, label)`. -/
def reasons (v : Json) (label : Str) : Except PreviewError (List ReasonCode) :=
  match v with
  | .arr l => do
    ensure (l.length ≤ maxReasonCodes) (.bad (label ++ Str.lit " must be a bounded list"))
    l.mapM fun v => reason v label
  | _ => .error (.bad (label ++ Str.lit " must be a bounded list"))

/-- A field that is read where the object has it. -/
def ifPresent {α : Type} (v : Json) (key : String) (f : Json → Except PreviewError α) : Except PreviewError (Option α) :=
  match v.get? key with
  | some w => some <$> f w
  | none => .ok none

/-- The items of a list that is empty where the object lacks it. -/
def listField (v : Json) (key : String) (max : Option Nat) (message : String) : Except PreviewError (List Json) :=
  match v.get? key with
  | none => .ok []
  | some (.arr l) => if max.all (l.length ≤ ·) then .ok l else .error (.bad message)
  | some _ => .error (.bad message)

/-! ### Principals and destinations -/

/-- Who requested the context. A known principal has an identity, and an unknown one has none. -/
structure ContextPrincipal where
  kind : PrincipalKind
  id : Option Reference
  known : id.isNone = decide (kind = .unknown)

structure ContextDestination where
  provider : Reference
  locality : Locality
  model : Option Reference
  organizationManaged : Bool
  accountRef : Option Reference
  region : Option Reference

/-- `_principal(value)`. -/
def principal (v : Json) : Except PreviewError ContextPrincipal := do
  object v (Str.lit "principal")
  keys v ["kind"] ["id"] (Str.lit "principal")
  let kind ← enum PrincipalKind.all PrincipalKind.name (v.get "kind") (Str.lit "principal.kind")
  if h : kind = .unknown then do
    ensure ((v.get? "id").isNone = true) (.bad (Str.lit "an unknown principal must not carry an identity"))
    pure ⟨kind, none, by simp [h]⟩
  else do
    ensure ((v.get? "id").isSome = true) (.bad (Str.lit "a known principal requires an id"))
    let id ← ref (v.get "id") (Str.lit "principal.id")
    pure ⟨kind, some id, by simp [h]⟩

/-- A Boolean that is false where the object lacks it. -/
def flag (v : Json) (key : String) (label : Str) : Except PreviewError Bool :=
  match v.get? key with
  | some w => Preview.bool w label
  | none => .ok false

/-- `_destination(value)`. -/
def destination (v : Json) : Except PreviewError ContextDestination := do
  object v (Str.lit "destination")
  keys v ["provider", "locality"] ["model", "organization_managed", "account_ref", "region"] (Str.lit "destination")
  let model ← ifPresent v "model" (ref · (Str.lit "destination.model"))
  let account ← ifPresent v "account_ref" (ref · (Str.lit "destination.account_ref"))
  let region ← ifPresent v "region" (ref · (Str.lit "destination.region"))
  let provider ← ref (v.get "provider") (Str.lit "destination.provider")
  let locality ← enum Locality.all Locality.name (v.get "locality") (Str.lit "destination.locality")
  let managed ← flag v "organization_managed" (Str.lit "destination.organization_managed")
  pure ⟨provider, locality, model, managed, account, region⟩

/-! ### Signals and decisions -/

/-- What a detector inspected. -/
structure DetectorCoverage where
  kind : CoverageKind
  bytesTotal : Nat
  bytesInspected : Nat
  chunksTotal : Nat
  chunksInspected : Nat
  reason : Option ReasonCode
  bounded : bytesInspected ≤ bytesTotal ∧ chunksInspected ≤ chunksTotal
  complete : kind = .complete → bytesInspected = bytesTotal
  partly : kind = .part → bytesInspected ≠ bytesTotal

/-- `_coverage(value)`. -/
def coverage (v : Json) : Except PreviewError DetectorCoverage := do
  object v (Str.lit "coverage")
  keys v ["kind", "bytes_total", "bytes_inspected", "chunks_total", "chunks_inspected"] ["reason"] (Str.lit "coverage")
  let kind ← enum CoverageKind.all CoverageKind.name (v.get "kind") (Str.lit "coverage.kind")
  let bytesTotal ← int (v.get "bytes_total") (Str.lit "coverage.bytes_total") maxSafe
  let bytesInspected ← int (v.get "bytes_inspected") (Str.lit "coverage.bytes_inspected") maxSafe
  let chunksTotal ← int (v.get "chunks_total") (Str.lit "coverage.chunks_total") maxU32
  let chunksInspected ← int (v.get "chunks_inspected") (Str.lit "coverage.chunks_inspected") maxU32
  let code ← ifPresent v "reason" (reason · (Str.lit "coverage.reason"))
  if bounded : bytesInspected ≤ bytesTotal ∧ chunksInspected ≤ chunksTotal then
    if complete : kind = .complete → bytesInspected = bytesTotal then
      if partly : kind = .part → bytesInspected ≠ bytesTotal then
        pure ⟨kind, bytesTotal, bytesInspected, chunksTotal, chunksInspected, code, bounded, complete, partly⟩
      else .error (.bad (Str.lit "partial coverage must leave bytes uninspected"))
    else .error (.bad (Str.lit "complete coverage must inspect every byte"))
  else .error (.bad (Str.lit "coverage must not inspect more than the object holds"))

/-- One detector's result. -/
structure SecuritySignal where
  detectorId : Reference
  detectorVersion : Reference
  category : SignalCategory
  severity : Severity
  evidenceCount : Nat
  coverage : DetectorCoverage
  status : DetectorStatus
  latencyUs : Nat
  calibrated : Bool
  confidenceMilli : Option Nat
  honest : status = .failed ∨ status = .timedOut → coverage.kind ≠ .complete

/-- `_signal(value)`. -/
def signal (v : Json) : Except PreviewError SecuritySignal := do
  object v (Str.lit "signal")
  keys v ["detector", "category", "severity", "evidence_count", "coverage", "status", "latency_us"]
    ["calibrated", "confidence_milli"] (Str.lit "signal")
  let detector := v.get "detector"
  object detector (Str.lit "signal.detector")
  keys detector ["id", "version"] [] (Str.lit "signal.detector")
  let id ← ref (detector.get "id") (Str.lit "signal.detector.id")
  let version ← ref (detector.get "version") (Str.lit "signal.detector.version")
  let category ← enum SignalCategory.all SignalCategory.name (v.get "category") (Str.lit "signal.category")
  let severity ← enum Severity.all Severity.name (v.get "severity") (Str.lit "signal.severity")
  let evidence ← int (v.get "evidence_count") (Str.lit "signal.evidence_count") maxU32
  let covered ← coverage (v.get "coverage")
  let status ← enum DetectorStatus.all DetectorStatus.name (v.get "status") (Str.lit "signal.status")
  let latency ← int (v.get "latency_us") (Str.lit "signal.latency_us") maxSafe
  let calibrated ← flag v "calibrated" (Str.lit "signal.calibrated")
  let confidence ← ifPresent v "confidence_milli" (int · (Str.lit "signal.confidence_milli") 1000)
  if honest : status = .failed ∨ status = .timedOut → covered.kind ≠ .complete then
    pure ⟨id, version, category, severity, evidence, covered, status, latency, calibrated, confidence, honest⟩
  else .error (.bad (Str.lit "a failed or timed-out detector cannot claim complete coverage"))

/-- The gateway's decision about one object. -/
structure ContextDecision where
  object : Digest
  disposition : ContextDisposition
  reasonCodes : List ReasonCode
  signals : List SecuritySignal
  requiredTransformations : List Transformation
  reasoned : disposition ≠ .allow → reasonCodes ≠ []

/-- `_decision(value)`. -/
def decision (v : Json) : Except PreviewError ContextDecision := do
  Preview.object v (Str.lit "decision")
  keys v ["object", "disposition"] ["reason_codes", "signals", "required_transformations"] (Str.lit "decision")
  let signalList ← listField v "signals" (some maxSignals) "decision.signals must be a bounded list"
  let kinds ← listField v "required_transformations" none "decision.required_transformations must be a list"
  let object ← Preview.digest (v.get "object") (Str.lit "decision.object")
  let disposition ← enum ContextDisposition.all ContextDisposition.name (v.get "disposition") (Str.lit "decision.disposition")
  let codes ← reasons ((v.get? "reason_codes").getD (.arr [])) (Str.lit "decision.reason_codes")
  let signals ← signalList.mapM signal
  let transformations ← kinds.mapM fun kind =>
    enum Transformation.all Transformation.name kind (Str.lit "decision.required_transformations")
  if reasoned : disposition ≠ .allow → codes ≠ [] then pure ⟨object, disposition, codes, signals, transformations, reasoned⟩
  else .error (.bad (Str.lit "every non-allow decision requires at least one reason code"))

/-! ### The receipt -/

/-- How many sources were inspected, permitted, selected and blocked. -/
structure SourceCounts where
  inspected : Nat
  permitted : Nat
  selected : Nat
  blocked : Nat
  bounded : selected ≤ permitted ∧ permitted + blocked ≤ inspected

structure SecurityCounts where
  redactions : Nat
  blockedObjects : Nat
  quarantinedObjects : Nat
  injectionSignals : Nat
  incompleteCoverage : Nat

structure TokenCounts where
  original : Nat
  delivered : Nat

structure ReceiptPolicy where
  id : Reference
  digest : Digest
  version : Option Reference

/-- `rk-` and 32 hexadecimal digits. -/
def isKeyId (s : Str) : Bool := decide (Str.lit "rk-" <+: s) && s.length == 35 && (s.drop 3).all Sha256.isHex

/-- The key under which a receipt digests its objects; the only algorithm is `hmac-sha256`. -/
abbrev ReceiptObjectDigest := {s : Str // isKeyId s = true}

/-- One governed delivery. -/
structure ContextDecisionReceipt where
  receiptId : Reference
  mode : Mode
  principal : ContextPrincipal
  destination : ContextDestination
  sources : SourceCounts
  security : SecurityCounts
  tokens : TokenCounts
  outcome : DeliveryOutcome
  durationUs : Nat
  decisions : List ContextDecision
  policy : Option ReceiptPolicy
  task : Option Reference
  finalContext : Option Digest
  quality : Option Json
  objectDigest : Option ReceiptObjectDigest
  counted : security.blockedObjects = decisions.countP (·.disposition = .deny) ∧
    security.quarantinedObjects = decisions.countP (·.disposition = .quarantine)
  named : finalContext.isSome = decide (outcome = .delivered)

/-- `receipt.schema_version`: exactly a receipt of version 2 names its key. -/
def ContextDecisionReceipt.schemaVersion (r : ContextDecisionReceipt) : Nat := if r.objectDigest.isSome then 2 else 1

/-- The keys that `_counts` asks for. -/
def countKeys (v : Json) (names : List String) (label : String) : Except PreviewError Unit := do
  object v label
  keys v names [] label

/-- One of the counts of `_counts(value, keys, label, maximum)`. -/
def count (v : Json) (label key : String) (max : Nat) : Except PreviewError Nat :=
  int (v.get key) (Str.lit label ++ Str.lit "." ++ Str.lit key) max

/-- `_object_digest(value)`. -/
def objectDigest (v : Json) : Except PreviewError ReceiptObjectDigest := do
  object v (Str.lit "receipt.object_digest")
  keys v ["algorithm", "key_id"] [] (Str.lit "receipt.object_digest")
  match v.get "key_id" with
  | .str s =>
    if h : isKeyId s = true then do
      ensure (v.get "algorithm" = .str "hmac-sha256")
        (.unknownValue (Str.lit "receipt.object_digest.algorithm") (v.get "algorithm"))
      pure ⟨s, h⟩
    else .error (.bad (Str.lit "receipt.object_digest.key_id must be rk- and 32 hex digits"))
  | _ => .error (.bad (Str.lit "receipt.object_digest.key_id must be rk- and 32 hex digits"))

/-- The counts of sources, the selected ones among the permitted ones and these among the inspected ones. -/
def sourceCounts (v : Json) : Except PreviewError SourceCounts := do
  countKeys v ["inspected", "permitted", "selected", "blocked"] "receipt.sources"
  let inspected ← count v "receipt.sources" "inspected" maxU32
  let permitted ← count v "receipt.sources" "permitted" maxU32
  let selected ← count v "receipt.sources" "selected" maxU32
  let blocked ← count v "receipt.sources" "blocked" maxU32
  if h : selected ≤ permitted ∧ permitted + blocked ≤ inspected then pure ⟨inspected, permitted, selected, blocked, h⟩
  else .error (.bad (Str.lit "source counts must satisfy selected <= permitted and permitted + blocked <= inspected"))

def securityCounts (v : Json) : Except PreviewError SecurityCounts := do
  countKeys v ["redactions", "blocked_objects", "quarantined_objects", "injection_signals", "incomplete_coverage"] "receipt.security"
  let redactions ← count v "receipt.security" "redactions" maxU32
  let blocked ← count v "receipt.security" "blocked_objects" maxU32
  let quarantined ← count v "receipt.security" "quarantined_objects" maxU32
  let injections ← count v "receipt.security" "injection_signals" maxU32
  let incomplete ← count v "receipt.security" "incomplete_coverage" maxU32
  pure ⟨redactions, blocked, quarantined, injections, incomplete⟩

def tokenCounts (v : Json) : Except PreviewError TokenCounts := do
  countKeys v ["original", "delivered"] "receipt.tokens"
  let original ← count v "receipt.tokens" "original" maxSafe
  let delivered ← count v "receipt.tokens" "delivered" maxSafe
  pure ⟨original, delivered⟩

def receiptPolicy (v : Json) : Except PreviewError ReceiptPolicy := do
  object v (Str.lit "receipt.policy")
  keys v ["id", "digest"] ["version"] (Str.lit "receipt.policy")
  let id ← ref (v.get "id") (Str.lit "receipt.policy.id")
  let d ← Preview.digest (v.get "digest") (Str.lit "receipt.policy.digest")
  let version ← ifPresent v "version" (ref · (Str.lit "receipt.policy.version"))
  pure ⟨id, d, version⟩

/-- The version of a receipt. A Boolean or a float that equals it is refused. -/
def receiptVersion (v : Json) : Except PreviewError Nat :=
  if v = .int 1 then .ok 1
  else if v = .int 2 then .ok 2
  else .error (.bad (Str.lit "unsupported receipt schema_version"))

/-- The quality of a receipt, an object where there is one. -/
def receiptQuality (v : Json) : Except PreviewError (Option Json) :=
  match v with
  | .null => .ok none
  | v => do
    object v (Str.lit "receipt.quality")
    pure (some v)

/-- `parse_decision_receipt(value)`. -/
def parseDecisionReceipt (v : Json) : Except PreviewError ContextDecisionReceipt := do
  object v (Str.lit "receipt")
  keys v ["schema_version", "receipt_id", "mode", "principal", "destination", "sources", "security", "tokens", "outcome",
    "duration_us"] ["task", "policy", "decisions", "final_context", "quality", "object_digest"] (Str.lit "receipt")
  let version ← receiptVersion (v.get "schema_version")
  ensure (decide (version = 2) = (v.get? "object_digest").isSome)
    (.bad (Str.lit "exactly a schema_version 2 receipt names its object digest key"))
  let key ← ifPresent v "object_digest" objectDigest
  let decisionList ← listField v "decisions" (some maxDecisions) "receipt.decisions must be a bounded list"
  let decisions ← decisionList.mapM decision
  let sources ← sourceCounts (v.get "sources")
  let security ← securityCounts (v.get "security")
  if counted : security.blockedObjects = decisions.countP (·.disposition = .deny) ∧
      security.quarantinedObjects = decisions.countP (·.disposition = .quarantine) then do
    let outcome ← enum DeliveryOutcome.all DeliveryOutcome.name (v.get "outcome") (Str.lit "receipt.outcome")
    let finalContext ← ifPresent v "final_context" (Preview.digest · (Str.lit "receipt.final_context"))
    if named : finalContext.isSome = decide (outcome = .delivered) then do
      let policy ← ifPresent v "policy" receiptPolicy
      let quality ← receiptQuality (v.get "quality")
      let receiptId ← ref (v.get "receipt_id") (Str.lit "receipt.receipt_id")
      let mode ← enum Mode.all Mode.name (v.get "mode") (Str.lit "receipt.mode")
      let requester ← principal (v.get "principal")
      let target ← destination (v.get "destination")
      let tokens ← tokenCounts (v.get "tokens")
      let duration ← int (v.get "duration_us") (Str.lit "receipt.duration_us") maxSafe
      let task ← ifPresent v "task" (ref · (Str.lit "receipt.task"))
      pure ⟨receiptId, mode, requester, target, sources, security, tokens, outcome, duration, decisions, policy, task, finalContext,
        quality, key, counted, named⟩
    else .error (.bad (Str.lit "exactly a delivered receipt names the delivered context digest"))
  else .error (.bad (Str.lit "security counts must equal the recorded deny/quarantine decisions"))

end LeanCtx.Gateway
