import LeanCtx.Preview.Fields

/-! The lineage of a task in the context store of an instance: what the instance answers, read as `context_store.py` reads it. Each
    record carries what its reader checks. -/

namespace LeanCtx
open Preview

namespace Store
open Json

def maxTextBytes : Nat := 4096

def maxLineageItems : Nat := 4096

def maxResponseBytes : Nat := 8 * 1024 * 1024

/-- A text that `_text` accepts. It may be empty. -/
def isBounded (max : Nat) (s : Str) : Bool :=
  s.all Str.isScalar && s.utf8Length ≤ max && s.all fun c => 32 ≤ c && c != 127

abbrev Bounded (max : Nat) := {s : Str // isBounded max s = true}

/-- `_text(value, label, maximum)`. A text that does not encode raises a `UnicodeEncodeError`. -/
def text (v : Json) (label : Str) (max : Nat) : Except PreviewError (Bounded max) :=
  match v with
  | .str s =>
    if h : isBounded max s = true then .ok ⟨s, h⟩
    else if !s.all Str.isScalar then .error .unicode
    else .error (.bad (label ++ Str.lit " must be bounded text"))
  | _ => .error (.bad (label ++ Str.lit " must be bounded text"))

/-- `_list(value, label, maximum)`. -/
def list (v : Json) (label : Str) (max : Nat) : Except PreviewError (List Json) :=
  match v with
  | .arr l =>
    if l.length ≤ max then .ok l else .error (.bad (label ++ Str.lit " must be a list of at most " ++ natText max))
  | _ => .error (.bad (label ++ Str.lit " must be a list of at most " ++ natText max))

theorem text_eq_ok {v : Json} {label : Str} {max : Nat} {t : Bounded max} : text v label max = .ok t ↔ v = .str t.1 := by
  constructor
  · intro h
    unfold text at h
    split at h
    · split_ifs at h
      cases h
      rfl
    · cases h
  · rintro rfl
    simp [text, t.2]

theorem list_eq_ok {v : Json} {label : Str} {max : Nat} {l : List Json} :
    list v label max = .ok l ↔ v = .arr l ∧ l.length ≤ max := by
  unfold list
  split
  · split_ifs with h
    · simp only [Except.ok.injEq, Json.arr.injEq]
      exact ⟨fun heq => ⟨heq, heq ▸ h⟩, And.left⟩
    · refine iff_of_false nofun fun ⟨heq, hle⟩ => h ?_
      rw [Json.arr.inj heq]
      exact hle
  · next hv => exact iff_of_false nofun fun h => hv _ h.1

end Store

/-! ### The kinds of a record -/

/-- The kinds of steps in the ledger of an instance. -/
inductive StepKind
  | taskStarted
  | planCreated
  | contextDelivered
  | modelInvoked
  | engineInvoked
  | receiptSigned
  | canonicalReceiptRecorded
  | outcomeRecorded
  | decisionRecorded
deriving DecidableEq

namespace StepKind

def name : StepKind → String
  | .taskStarted => "task_started"
  | .planCreated => "plan_created"
  | .contextDelivered => "context_delivered"
  | .modelInvoked => "model_invoked"
  | .engineInvoked => "engine_invoked"
  | .receiptSigned => "receipt_signed"
  | .canonicalReceiptRecorded => "canonical_receipt_recorded"
  | .outcomeRecorded => "outcome_recorded"
  | .decisionRecorded => "decision_recorded"

def all : List StepKind :=
  [.taskStarted, .planCreated, .contextDelivered, .modelInvoked, .engineInvoked, .receiptSigned, .canonicalReceiptRecorded,
    .outcomeRecorded, .decisionRecorded]

theorem mem_all (k : StepKind) : k ∈ all := by cases k <;> simp [all]

theorem name_injective : Function.Injective name := by
  intro a b h
  cases a <;> cases b <;> first | rfl | exact absurd h (by decide)

end StepKind

/-- What became of a task. -/
inductive TaskOutcome
  | accepted
  | rejected
  | unknown
deriving DecidableEq

namespace TaskOutcome

def name : TaskOutcome → String
  | .accepted => "accepted"
  | .rejected => "rejected"
  | .unknown => "unknown"

def all : List TaskOutcome := [.accepted, .rejected, .unknown]

theorem mem_all (o : TaskOutcome) : o ∈ all := by cases o <;> simp [all]

theorem name_injective : Function.Injective name := by
  intro a b h
  cases a <;> cases b <;> first | rfl | exact absurd h (by decide)

end TaskOutcome

/-- Why the receipt of a delivery could not be verified. -/
inductive DeliveryError
  | missing
  | unreadable
  | tampered
deriving DecidableEq

namespace DeliveryError

def name : DeliveryError → String
  | .missing => "missing"
  | .unreadable => "unreadable"
  | .tampered => "tampered"

def all : List DeliveryError := [.missing, .unreadable, .tampered]

end DeliveryError

/-- A link that a lineage misses. -/
inductive Gap
  | ledgerUnverified
  | noPlanRecorded
  | noDeliveryRecorded
  | deliveryUnverified
  | deliveriesIncomplete
  | noOutcomeRecorded
deriving DecidableEq

namespace Gap

def name : Gap → String
  | .ledgerUnverified => "ledger_unverified"
  | .noPlanRecorded => "no_plan_recorded"
  | .noDeliveryRecorded => "no_delivery_recorded"
  | .deliveryUnverified => "delivery_unverified"
  | .deliveriesIncomplete => "deliveries_incomplete"
  | .noOutcomeRecorded => "no_outcome_recorded"

def all : List Gap :=
  [.ledgerUnverified, .noPlanRecorded, .noDeliveryRecorded, .deliveryUnverified, .deliveriesIncomplete, .noOutcomeRecorded]

theorem mem_all (g : Gap) : g ∈ all := by cases g <;> simp [all]

theorem name_injective : Function.Injective name := by
  intro a b h
  cases a <;> cases b <;> first | rfl | exact absurd h (by decide)

end Gap

/-! ### Records -/

open Store

/-- One observation of the ledger. -/
structure LineageStep where
  sequence : Nat
  kind : StepKind
  timestamp : Bounded Preview.maxRefBytes
  fields : List (Str × Bounded Preview.maxRefBytes)

structure DeliverySummary where
  outcome : DeliveryOutcome
  destination : Bounded Preview.maxRefBytes
  policyDigest : Option Digest
  inspected : Nat
  delivered : Nat
  withheld : Nat
  redactions : Nat
  tokensOriginal : Nat
  tokensDelivered : Nat
  finalContext : Option Digest
  saved : tokensDelivered ≤ tokensOriginal

/-- One governed delivery: a verified one has a summary, another one an error. -/
structure LineageDelivery where
  digest : Digest
  verified : Bool
  error : Option DeliveryError
  summary : Option DeliverySummary
  summarized : summary.isSome = verified
  named : error.isNone = verified

/-- One task's lineage. -/
structure TaskLineage where
  taskId : Bounded Preview.maxRefBytes
  scope : Option (Bounded Store.maxTextBytes)
  steps : List LineageStep
  deliveries : List LineageDelivery
  ledgerError : Option (Bounded Store.maxTextBytes)
  outcome : TaskOutcome
  gaps : List Gap
  distinct : gaps.Nodup
  ledger : ledgerError.isSome = decide (Gap.ledgerUnverified ∈ gaps)
  unverified : (deliveries.any fun d => !d.verified) = decide (Gap.deliveryUnverified ∈ gaps)

/-- `lineage.is_complete`. -/
def TaskLineage.isComplete (l : TaskLineage) : Bool := l.gaps.isEmpty

/-! ### Readers -/

namespace Store
open Json

/-- `^[a-z][a-z0-9_]{0,63}$`. -/
def isFieldName : Str → Bool
  | [] => false
  | c :: r => (97 ≤ c && c ≤ 122) && r.length ≤ 63 &&
    r.all fun c => (97 ≤ c && c ≤ 122) || (48 ≤ c && c ≤ 57) || c == 95

/-- The fields of a step, each a bounded text under a name. -/
def stepFields (v : Json) (label : Str) : Except PreviewError (List (Str × Bounded maxRefBytes)) :=
  match v with
  | .obj f => f.mapM fun p => do
    ensure (isFieldName p.1 = true) (.bad (label ++ Str.lit ".fields has an invalid name"))
    let t ← text p.2 (label ++ Str.lit ".fields." ++ p.1) maxRefBytes
    pure (p.1, t)
  | _ => .error (.bad (label ++ Str.lit ".fields must be an object"))

/-- `_step(value, label)`. -/
def step (v : Json) (label : Str) : Except PreviewError LineageStep := do
  object v label
  keys v ["sequence", "kind", "timestamp", "fields"] [] label
  let fields ← stepFields (v.get "fields") label
  let sequence ← int (v.get "sequence") (label ++ Str.lit ".sequence") maxSafe
  let kind ← enum StepKind.all StepKind.name (v.get "kind") (label ++ Str.lit ".kind")
  let timestamp ← text (v.get "timestamp") (label ++ Str.lit ".timestamp") maxRefBytes
  pure ⟨sequence, kind, timestamp, fields⟩

/-- `_summary(value, label)`. -/
def summary (v : Json) (label : Str) : Except PreviewError DeliverySummary := do
  object v label
  keys v ["outcome", "destination", "policy_digest", "final_context", "inspected", "delivered", "withheld", "redactions",
    "tokens_original", "tokens_delivered"] [] label
  let outcome ← enum DeliveryOutcome.all DeliveryOutcome.name (v.get "outcome") (label ++ Str.lit ".outcome")
  let destination ← text (v.get "destination") (label ++ Str.lit ".destination") maxRefBytes
  let policyDigest ← nullable (Preview.digest · (label ++ Str.lit ".policy_digest")) (v.get "policy_digest")
  let finalContext ← nullable (Preview.digest · (label ++ Str.lit ".final_context")) (v.get "final_context")
  let inspected ← int (v.get "inspected") (label ++ Str.lit ".inspected") maxSafe
  let delivered ← int (v.get "delivered") (label ++ Str.lit ".delivered") maxSafe
  let withheld ← int (v.get "withheld") (label ++ Str.lit ".withheld") maxSafe
  let redactions ← int (v.get "redactions") (label ++ Str.lit ".redactions") maxSafe
  let original ← int (v.get "tokens_original") (label ++ Str.lit ".tokens_original") maxSafe
  let tokens ← int (v.get "tokens_delivered") (label ++ Str.lit ".tokens_delivered") maxSafe
  if h : tokens ≤ original then
    pure ⟨outcome, destination, policyDigest, inspected, delivered, withheld, redactions, original, tokens, finalContext, h⟩
  else .error (.bad (label ++ Str.lit " delivered more tokens than original"))

/-- `_delivery(value, label)`. -/
def delivery (v : Json) (label : Str) : Except PreviewError LineageDelivery := do
  object v label
  keys v ["digest", "verified"] ["error", "summary"] label
  let verified ← Preview.bool (v.get "verified") (label ++ Str.lit ".verified")
  ensure (verified = (v.get? "summary").isSome ∧ verified = (v.get? "error").isNone)
    (.bad (label ++ Str.lit ": a verified delivery has a summary, an unverified one an error"))
  let d ← Preview.digest (v.get "digest") (label ++ Str.lit ".digest")
  if verified then do
    let s ← summary (v.get "summary") (label ++ Str.lit ".summary")
    pure ⟨d, true, none, some s, rfl, rfl⟩
  else do
    let e ← enum DeliveryError.all DeliveryError.name (v.get "error") (label ++ Str.lit ".error")
    pure ⟨d, false, some e, none, rfl, rfl⟩

/-- The scope of a lineage, if it names one. -/
def scopeOf (v : Json) : Except PreviewError (Option (Bounded maxTextBytes)) :=
  match v.get? "scope" with
  | some s => some <$> text s (Str.lit "scope") maxTextBytes
  | none => .ok none

/-- `parse_task_lineage(value)`. -/
def parseTaskLineage (v : Json) : Except PreviewError TaskLineage := do
  object v (Str.lit "lineage")
  keys v ["schema_version", "task_id", "steps", "deliveries", "outcome", "gaps"] ["scope", "ledger_error"] (Str.lit "lineage")
  ensure (v.get "schema_version" = .int 1) (.bad (Str.lit "unsupported lineage schema_version"))
  let gapList ← list (v.get "gaps") (Str.lit "gaps") Gap.all.length
  let gaps ← gapList.mapM fun v => enum Gap.all Gap.name v (Str.lit "gaps")
  if hdistinct : gaps.Nodup then do
    let ledgerError ← nullable (text · (Str.lit "ledger_error") maxTextBytes) (v.get "ledger_error")
    if hledger : ledgerError.isSome = decide (Gap.ledgerUnverified ∈ gaps) then do
      let stepList ← list (v.get "steps") (Str.lit "steps") maxLineageItems
      let steps ← items step "steps" stepList
      let deliveryList ← list (v.get "deliveries") (Str.lit "deliveries") maxLineageItems
      let deliveries ← items delivery "deliveries" deliveryList
      if hunverified : (deliveries.any fun d => !d.verified) = decide (Gap.deliveryUnverified ∈ gaps) then do
        let taskId ← text (v.get "task_id") (Str.lit "task_id") maxRefBytes
        let scope ← scopeOf v
        let outcome ← enum TaskOutcome.all TaskOutcome.name (v.get "outcome") (Str.lit "outcome")
        pure ⟨taskId, scope, steps, deliveries, ledgerError, outcome, gaps, hdistinct, hledger, hunverified⟩
      else .error (.bad (Str.lit "an unverified delivery and the delivery_unverified gap go together"))
    else .error (.bad (Str.lit "a ledger error and the ledger_unverified gap go together"))
  else .error (.bad (Str.lit "gaps must not repeat"))

/-! ### Requests -/

/-- A field of a request, which is left out where there is none. -/
def requestField (key : String) (value : Option Str) : Except PreviewError (List (String × Json)) :=
  match value with
  | none => .ok []
  | some s =>
    if s.all Unicode.isSpace then .error (.validation (key ++ " must be a non-empty bounded string"))
    else if !s.all Str.isScalar then .error .unicode
    else if maxRefBytes < s.utf8Length then .error (.validation (key ++ " must be a non-empty bounded string"))
    else .ok [(key, .str s)]

/-- `store_request(project_id=…, tenant_id=…, task_id=…)`. -/
def storeRequest (projectId tenantId taskId : Option Str) : Except PreviewError Json := do
  let project ← requestField "project_id" projectId
  let tenant ← requestField "tenant_id" tenantId
  let task ← requestField "task_id" taskId
  pure (mkObj ([("schema_version", .int 1), ("transport_version", .int 1), ("engine_interface_version", .str "1.0.0")] ++
    project ++ tenant ++ task))

/-- The instance: what it answers to a request. -/
abbrev Engine := Json → Except InstanceError Bytes

/-- `_read(engine, operation, project_root, request, body)`. -/
def read (engine : Engine) (request : Json) (body : String) : Except PreviewError Json := do
  let raw ← catching (engine request) .engine
  ensure (raw.length ≤ maxResponseBytes) (.bad (Str.lit "response exceeds its bound"))
  match strictLoads? raw with
  | none => .error (.bad (Str.lit "response is not strict JSON"))
  | some document => do
    keys document ["schema_version", "transport_version", "engine_interface_version", body] [] (Str.lit "response")
    ensure (document.get "schema_version" = .int 1 ∧ document.get "transport_version" = .int 1 ∧
      document.get "engine_interface_version" = .str "1.0.0") (.bad (Str.lit "unsupported response versions"))
    pure (document.get body)

/-- `read_task_lineage(engine, project_root, task_id, project_id=…, tenant_id=…)`. -/
def readTaskLineage (engine : Engine) (taskId : Str) (projectId tenantId : Option Str) : Except PreviewError TaskLineage := do
  ensure (¬taskId.all Unicode.isSpace = true) (.validation "task_id must be a non-empty string")
  let request ← storeRequest projectId tenantId (some taskId)
  let value ← read engine request "lineage"
  parseTaskLineage value

end Store
end LeanCtx
