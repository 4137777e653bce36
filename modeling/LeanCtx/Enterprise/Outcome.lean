import LeanCtx.Enterprise.Fields

/-! The receipt of an outcome that an operator reported. The response wraps the receipt's document as exact text: the text hashes to
    one digest, and the document without its identifier and its signature to the identifier. -/

namespace LeanCtx

/-- What became of the outcome of a task. -/
inductive Acceptance
  | accepted
  | rejected
deriving DecidableEq

def Acceptance.name : Acceptance → String
  | .accepted => "accepted"
  | .rejected => "rejected"

namespace Enterprise
open Json

/-- `_MAX_ENGINE_OUTCOME_RESPONSE_BYTES`. -/
def maxOutcomeResponseBytes : Nat := 4 * 1024 * 1024 + 64 * 1024

def maxOutcomeTaskBytes : Nat := 256

def maxReceiptDocumentBytes : Nat := 1024 * 1024

/-- The keys of a receipt document. -/
def receiptKeys : List String :=
  ["schema_version", "receipt_id", "lineage", "chain", "status", "values", "outcome", "evidence_refs", "issued_at", "signer",
    "signature"]

def outcomeKeys : List String :=
  ["schema_version", "receipt_id", "receipt_digest", "original_receipt_digest", "acceptance", "already_recorded",
    "receipt_document_json"]

/-- The evidence of the decision that a source plan made. -/
def evidenceUri (d : Digest) : Str := Str.lit "artifact://execution/evidence/" ++ d.hex

/-- The document without what is computed from it. -/
def identityOf (document : Json) : Json := document.without ["receipt_id", "signature"]

/-- The references of a document to what the runtime has as evidence. -/
def runtimeRefs (refs : List Json) : List Json := refs.filter fun r => r.isObj && r.get "kind" = .str "runtime"

/-- An answer that carries the receipt of an outcome. -/
structure OutcomeReceipt where
  tenantId : Str
  receiptId : Digest
  receiptDigest : Digest
  originalReceiptDigest : Digest
  acceptance : Acceptance
  alreadyRecorded : Bool
  receiptDocumentJson : Field maxReceiptDocumentBytes false false

/-! ### The document -/

/-- The canonical bytes of a document are the given ones, and those of its identity hash to the identifier. -/
def checkIdentity (document : Json) (data : Bytes) (receiptId : Digest) : Except InstanceError Unit :=
  match document.canonicalBytes?, (identityOf document).canonicalBytes? with
  | none, _ => .error (.protocol "Enterprise instance outcome receipt identity is invalid")
  | some b, identity => do
    ensure (b = data) (.protocol "Enterprise instance outcome receipt bytes are not canonical")
    match identity with
    | none => .error (.protocol "Enterprise instance outcome receipt identity is invalid")
    | some i => ensure (digestOf i = receiptId) (.protocol "Enterprise instance outcome receipt identity differs")

/-- Every reference to runtime evidence names the decision, and there is one. -/
def checkEvidence (refs : Json) (decision : Digest) : Except InstanceError Unit :=
  match refs with
  | .arr l => do
    ensure (runtimeRefs l ≠ []) (.protocol "Enterprise instance outcome receipt has no runtime evidence")
    ensure (∀ r ∈ runtimeRefs l, r.get "digest" = decision.json ∧ r.get "uri" = .str (evidenceUri decision))
      (.protocol "Enterprise instance outcome runtime evidence does not match")
  | _ => .error (.protocol "Enterprise instance outcome receipt evidence references are invalid")

/-- `_validate_outcome_receipt_joins(receipt_document_bytes, …)`. -/
def validateOutcomeReceiptJoins (data : Bytes) (receiptId : Digest) (acceptance : Acceptance) (taskId : Str) (decision : Digest) :
    Except InstanceError Unit := do
  let document ← loads data "Enterprise instance outcome receipt document is not valid JSON"
  mapping document "outcome.receipt_document_json" true
  exactKeys document receiptKeys "Enterprise instance outcome receipt envelope is incomplete"
  exactVersion (document.get "schema_version") "receipt.schema_version" true
  checkIdentity document data receiptId
  ensure (document.get "receipt_id" = receiptId.json)
    (.protocol "Enterprise instance outcome receipt id does not match the response")
  ensure ((document.get "outcome").isObj = true ∧ (document.get "outcome").get "state" = .str acceptance.name)
    (.protocol "Enterprise instance outcome state does not match the response")
  ensure ((document.get "chain").isObj = true) (.protocol "Enterprise instance outcome receipt chain is invalid")
  ensure (((document.get "chain").get "previous_receipt_id").isStr = true)
    (.protocol "Enterprise instance outcome receipt predecessor is missing")
  let _ ← wrapping (validateDigest ((document.get "chain").get "previous_receipt_id") "receipt.chain.previous_receipt_id")
    "Enterprise instance outcome receipt predecessor is invalid"
  ensure ((document.get "lineage").isObj = true ∧ (document.get "lineage").get "task_id" = .str taskId)
    (.protocol "Enterprise instance outcome receipt task binding does not match")
  checkEvidence (document.get "evidence_refs") decision

/-- What a document is that passes the checks for a task and a decision. -/
structure ReceiptJoins (document : Json) (data : Bytes) (receiptId : Digest) (acceptance : Acceptance) (taskId : Str)
    (decision : Digest) : Prop where
  loads : strictLoads? data = some document
  canonical : document.canonicalBytes? = some data
  keys : document.hasExactly receiptKeys = true
  schema : document.get "schema_version" = .int 1
  identity : ∃ i, (identityOf document).canonicalBytes? = some i ∧ digestOf i = receiptId
  receiptId : document.get "receipt_id" = receiptId.json
  state : (document.get "outcome").get "state" = .str acceptance.name
  previous : ∃ d : Digest, (document.get "chain").get "previous_receipt_id" = d.json
  task : (document.get "lineage").get "task_id" = .str taskId
  evidence : ∃ refs, document.get "evidence_refs" = .arr refs ∧ runtimeRefs refs ≠ [] ∧
    ∀ r ∈ runtimeRefs refs, r.get "digest" = decision.json ∧ r.get "uri" = .str (evidenceUri decision)

theorem checkIdentity_eq_ok {document : Json} {data : Bytes} {receiptId : Digest} {u : Unit} :
    checkIdentity document data receiptId = .ok u ↔ document.canonicalBytes? = some data ∧
      ∃ i, (identityOf document).canonicalBytes? = some i ∧ digestOf i = receiptId := by
  unfold checkIdentity
  cases document.canonicalBytes? with
  | none => exact ⟨nofun, fun h => nomatch h.1⟩
  | some b =>
    rw [ensure_bind_eq_ok, Option.some.injEq]
    refine and_congr_right fun _ => ?_
    cases (identityOf document).canonicalBytes? with
    | none => exact ⟨nofun, fun ⟨_, h, _⟩ => nomatch h⟩
    | some i => simp

theorem checkEvidence_eq_ok {v : Json} {decision : Digest} {u : Unit} : checkEvidence v decision = .ok u ↔
    ∃ refs, v = .arr refs ∧ runtimeRefs refs ≠ [] ∧
      ∀ r ∈ runtimeRefs refs, r.get "digest" = decision.json ∧ r.get "uri" = .str (evidenceUri decision) := by
  cases v with
  | arr l => simp only [checkEvidence, ensure_bind_eq_ok, ensure_eq_ok, Json.arr.injEq, exists_eq_left']
  | _ => simp [checkEvidence]

/-- A key of a value that is no object holds nothing. -/
theorem isObj_of_get_ne_null {v : Json} {k : String} (h : v.get k ≠ .null) : v.isObj = true := by
  cases v with
  | obj f => rfl
  | _ => exact absurd rfl h

theorem validateOutcomeReceiptJoins_eq_ok {data : Bytes} {receiptId : Digest} {acceptance : Acceptance} {taskId : Str}
    {decision : Digest} {u : Unit} : validateOutcomeReceiptJoins data receiptId acceptance taskId decision = .ok u ↔
      ∃ document, ReceiptJoins document data receiptId acceptance taskId decision := by
  simp only [validateOutcomeReceiptJoins, bind_eq_ok, loads_eq_ok, mapping_eq_ok, exactKeys_eq_ok, exactVersion_eq_ok,
    checkIdentity_eq_ok, ensure_eq_ok, wrapping_eq_ok, validateDigest_eq_ok, checkEvidence_eq_ok, exists_const]
  constructor
  · rintro ⟨document, hloads, -, hkeys, hschema, ⟨hcanonical, hidentity⟩, hid, ⟨-, hstate⟩, -, -, d, hd, ⟨-, htask⟩, hevidence⟩
    exact ⟨document, hloads, hcanonical, hkeys, hschema, hidentity, hid, hstate, ⟨d, hd⟩, htask, hevidence⟩
  · rintro ⟨document, h⟩
    obtain ⟨d, hd⟩ := h.previous
    have hstr : ((document.get "chain").get "previous_receipt_id").isStr = true := by rw [hd]; rfl
    refine ⟨document, h.loads, ⟨Instance.isObj_of_hasExactly h.keys, data, h.canonical⟩, h.keys, h.schema,
      ⟨h.canonical, h.identity⟩, h.receiptId, ⟨isObj_of_get_ne_null (k := "state") ?_, h.state⟩,
      isObj_of_get_ne_null (k := "previous_receipt_id") ?_, hstr, d, hd, ⟨isObj_of_get_ne_null (k := "task_id") ?_, h.task⟩,
      h.evidence⟩
    · rw [h.state]
      exact Json.noConfusion
    · rw [hd]
      exact Json.noConfusion
    · rw [h.task]
      exact Json.noConfusion

/-! ### The response -/

/-- The acceptance that a response names. -/
def acceptanceOf (v : Json) : Except InstanceError Acceptance :=
  if v = .str Acceptance.accepted.name then .ok .accepted
  else if v = .str Acceptance.rejected.name then .ok .rejected
  else .error (.protocol "Enterprise instance outcome acceptance is unsupported")

def recordedOf : Json → Except InstanceError Bool
  | .bool b => .ok b
  | _ => .error (.protocol "Enterprise instance outcome already_recorded must be a boolean")

/-- `receipt_document_json.encode("utf-8", "strict")` of a text that encodes. -/
def Field.bytes {max : Nat} {printable controls : Bool} (t : Field max printable controls) : Bytes :=
  t.1.flatMap Str.encodePoint

/-- `parse_engine_outcome_response(raw, …)`. -/
def parseEngineOutcomeResponse (raw : Bytes) (taskId receiptDigest contextDecisionDigest tenantId : Str) :
    Except InstanceError OutcomeReceipt := do
  ensure (raw.length ≤ maxOutcomeResponseBytes) (.protocol "Enterprise instance outcome response exceeds its byte bound")
  let value ← loads raw "Enterprise instance outcome response is not valid JSON"
  exactKeys value ["schema_version", "tenant_id", "outcome"] "Enterprise instance outcome response wrapper is invalid"
  exactVersion (value.get "schema_version") "response.schema_version" true
  ensure (value.get "tenant_id" = .str tenantId) (.protocol "Enterprise instance outcome tenant binding does not match")
  let outcome := value.get "outcome"
  mapping outcome "outcome" true
  exactKeys outcome outcomeKeys "Enterprise instance outcome fields do not match the v1 contract"
  exactVersion (outcome.get "schema_version") "outcome.schema_version" true
  let invalid := "Enterprise instance outcome digest or task binding is invalid"
  let task ← text (.str taskId) "task_id" maxOutcomeTaskBytes true false true
  let requested ← wrapping (validateDigest (.str receiptDigest) "receipt_digest") invalid
  let decision ← wrapping (validateDigest (.str contextDecisionDigest) "context_decision_digest") invalid
  let receiptId ← wrapping (validateDigest (outcome.get "receipt_id") "outcome.receipt_id") invalid
  let successor ← wrapping (validateDigest (outcome.get "receipt_digest") "outcome.receipt_digest") invalid
  let original ← wrapping (validateDigest (outcome.get "original_receipt_digest") "outcome.original_receipt_digest") invalid
  ensure (original = requested) (.protocol "Enterprise instance outcome original receipt does not match")
  let acceptance ← acceptanceOf (outcome.get "acceptance")
  let recorded ← recordedOf (outcome.get "already_recorded")
  let document ← text (outcome.get "receipt_document_json") "outcome.receipt_document_json" maxReceiptDocumentBytes true false false
  ensure (digestOf document.bytes = successor) (.protocol "Enterprise instance outcome receipt document digest does not match")
  validateOutcomeReceiptJoins document.bytes receiptId acceptance task.1 decision
  .ok ⟨tenantId, receiptId, successor, original, acceptance, recorded, document⟩

/-- The outcome of a response, as an object. -/
def OutcomeReceipt.outcome (r : OutcomeReceipt) : Json :=
  mkObj [("schema_version", .int 1), ("receipt_id", r.receiptId.json), ("receipt_digest", r.receiptDigest.json),
    ("original_receipt_digest", r.originalReceiptDigest.json), ("acceptance", .str r.acceptance.name),
    ("already_recorded", .bool r.alreadyRecorded), ("receipt_document_json", r.receiptDocumentJson.json)]

def OutcomeReceipt.toDict (r : OutcomeReceipt) : Json :=
  mkObj [("schema_version", .int 1), ("tenant_id", .str r.tenantId), ("outcome", r.outcome)]

theorem acceptanceOf_eq_ok {v : Json} {a : Acceptance} : acceptanceOf v = .ok a ↔ v = .str a.name := by
  constructor
  · intro h
    unfold acceptanceOf at h
    split_ifs at h with haccepted hrejected
    · cases h
      exact haccepted
    · cases h
      exact hrejected
  · rintro rfl
    cases a <;> rfl

theorem recordedOf_eq_ok {v : Json} {b : Bool} : recordedOf v = .ok b ↔ v = .bool b := by
  cases v <;> simp [recordedOf]

theorem Field.utf8?_eq {max : Nat} {printable controls : Bool} (t : Field max printable controls) : t.1.utf8? = some t.bytes := by
  have h := t.2
  simp only [isField, Bool.and_eq_true] at h
  rw [Str.utf8?, if_pos h.1.1.1]
  rfl

/-- What an accepted response says of its receipt. -/
structure OutcomeReceipt.Accepted (r : OutcomeReceipt) (raw : Bytes) (taskId receiptDigest contextDecisionDigest : Str) : Prop where
  length : raw.length ≤ maxOutcomeResponseBytes
  response : ∃ value, strictLoads? raw = some value ∧ value.hasExactly ["schema_version", "tenant_id", "outcome"] = true ∧
    value.get "schema_version" = .int 1 ∧ value.get "tenant_id" = .str r.tenantId ∧
    (value.get "outcome").Writable ∧ (value.get "outcome").hasExactly outcomeKeys = true ∧
    (value.get "outcome").get "schema_version" = .int 1 ∧ (value.get "outcome").get "receipt_id" = r.receiptId.json ∧
    (value.get "outcome").get "receipt_digest" = r.receiptDigest.json ∧
    (value.get "outcome").get "original_receipt_digest" = r.originalReceiptDigest.json ∧
    (value.get "outcome").get "acceptance" = .str r.acceptance.name ∧
    (value.get "outcome").get "already_recorded" = .bool r.alreadyRecorded ∧
    (value.get "outcome").get "receipt_document_json" = r.receiptDocumentJson.json
  task : isField maxOutcomeTaskBytes false true taskId = true
  original : r.originalReceiptDigest.1 = receiptDigest
  digest : digestOf r.receiptDocumentJson.bytes = r.receiptDigest
  joins : ∃ decision : Digest, decision.1 = contextDecisionDigest ∧
    ∃ document, ReceiptJoins document r.receiptDocumentJson.bytes r.receiptId r.acceptance taskId decision

theorem parseEngineOutcomeResponse_eq_ok {raw : Bytes} {taskId receiptDigest contextDecisionDigest tenantId : Str}
    {r : OutcomeReceipt} : parseEngineOutcomeResponse raw taskId receiptDigest contextDecisionDigest tenantId = .ok r ↔
      r.tenantId = tenantId ∧ r.Accepted raw taskId receiptDigest contextDecisionDigest := by
  simp only [parseEngineOutcomeResponse, bind_eq_ok, ensure_eq_ok, loads_eq_ok, exactKeys_eq_ok, exactVersion_eq_ok, mapping_eq_ok,
    text_eq_ok, wrapping_eq_ok, validateDigest_eq_ok, acceptanceOf_eq_ok, recordedOf_eq_ok, validateOutcomeReceiptJoins_eq_ok,
    exists_const, Except.ok.injEq]
  constructor
  · rintro ⟨hlength, value, hvalue, hkeys, hschema, htenant, ⟨-, hwritable⟩, houtcome, hversion, task, htask, requested, hrequested,
      decision, hdecision, receiptId, hid, successor, hsuccessor, original, horiginal, rfl, acceptance, hacceptance, recorded,
      hrecorded, document, hdocument, hdigest, hjoins, rfl⟩
    cases htask
    cases hrequested
    cases hdecision
    exact ⟨rfl, hlength, ⟨value, hvalue, hkeys, hschema, htenant, hwritable, houtcome, hversion, hid, hsuccessor, horiginal,
      hacceptance, hrecorded, hdocument⟩, task.2, rfl, hdigest, decision, rfl, hjoins⟩
  · rintro ⟨rfl, h⟩
    obtain ⟨value, hvalue, hkeys, hschema, htenant, hwritable, houtcome, hversion, hid, hsuccessor, horiginal, hacceptance, hrecorded,
      hdocument⟩ := h.response
    obtain ⟨decision, rfl, hjoins⟩ := h.joins
    exact ⟨h.length, value, hvalue, hkeys, hschema, htenant, ⟨Instance.isObj_of_hasExactly houtcome, hwritable⟩, houtcome, hversion,
      ⟨taskId, h.task⟩, rfl, r.originalReceiptDigest, congrArg Json.str h.original.symm, decision, rfl, r.receiptId, hid,
      r.receiptDigest, hsuccessor, r.originalReceiptDigest, horiginal, rfl, r.acceptance, hacceptance, r.alreadyRecorded, hrecorded,
      r.receiptDocumentJson, hdocument, h.digest, hjoins, rfl⟩

end Enterprise
end LeanCtx
