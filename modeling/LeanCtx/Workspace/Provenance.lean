import LeanCtx.Workspace.State

/-! Where committed entries come from: the proof that a sealed receipt of a session stands behind them, and the trust in
    sources that such receipts give. -/

namespace LeanCtx

/-! ### Receipt proofs -/

/-- `ContextReceiptLink(…)` of the fields of a link, which keeps them as they are. -/
def receiptLink (v : Json) : Except Err (Ref 512 × Digest) := do
  exact v ["schema_version", "receipt_id", "receipt_ref", "receipt_digest", "invocation_id"] "receipt link"
  ensure (v.get "schema_version" = .int 1) (.validation "receipt link schema_version must be 1")
  let _ ← ref (v.get "receipt_id") "receipt_id" 512
  let receiptRef ← ref (v.get "receipt_ref") "receipt_ref" 512
  let receiptDigest ← digestValue (v.get "receipt_digest") "receipt_digest"
  let _ ← text (v.get "invocation_id") "invocation_id" 512
  return (receiptRef, receiptDigest)

/-- What a proof says beside its session: the source, the path of the source, the receipt and the recovery. -/
structure ReceiptProof where
  source : Json
  path : Str
  receiptRef : Ref 512
  recoveryRef : Ref 512

/-- The proof of a receipt of a session, and its digest. -/
def receiptProof (v : Json) (sessionId : SessionId) (taskId : Text 512) (proofDigest : Digest) : Except Err ReceiptProof := do
  let invalid := Err.incompatible "receipt proof binding is invalid"
  let (receiptRef, receiptDigest) ← receiptLink (v.get "receipt_link")
  let source ← sourceFromBinding (v.get "source")
  let planId ← ref (v.get "plan_id") "receipt proof plan_id" 512
  let recoveryRef ← ref (v.get "recovery_ref") "receipt proof recovery_ref" 512
  let _ ← digestValue (v.get "output_digest") "receipt proof output_digest"
  let expected ← digest v
  ensure (expected = proofDigest ∧ Json.pyEq (v.get "schema_version") (.int 1) = true ∧
    v.get "session_id" = sessionId.json ∧ v.get "task_id" = taskId.json ∧ v.get "integrity_status" = .str "sealed" ∧
    (v.get "status" = .str "succeeded" ∨ v.get "status" = .str "degraded") ∧ Str.lit "plan:sha256:" <+: planId.1 ∧
    receiptRef.1 = Str.lit "receipt:" ++ receiptDigest.1) invalid
  match source.toDict, source.relativePath with
  | some binding, some path => do
    ensure (Json.pyEq binding (v.get "source") = true) invalid
    return ⟨v.get "source", path, receiptRef, recoveryRef⟩
  | _, _ => .error invalid

/-- A source of the workspace is the one that a proof names. -/
def sourceMatches (proof : ReceiptProof) (a : SourceAnchor) : Bool :=
  match a.engineBinding with
  | some binding => Json.pyEq binding.1 proof.source
  | none => a.kind = .filesystem && a.canonicalId.1 = Str.lit "file://" ++ proof.path

/-- One of some sources of the workspace is the one that a proof names. Python looks at them one after the other. -/
def anySourceMatches (s : State) (proof : ReceiptProof) : List SourceId → Except Err Bool
  | [] => .ok false
  | i :: l =>
    match s.sources.get? i with
    | some a => if sourceMatches proof a then .ok true else anySourceMatches s proof l
    | none => .error .keyError

/-- The provenance of a commit. -/
structure Provenance where
  sessionId : SessionId
  taskId : Text 512
  sourceIds : Ids maxSourceIds
  receiptRefs : Refs maxEntryRefs
  recoveryRefs : Refs maxEntryRefs
  receiptProof : Json
  receiptProofDigest : Digest

namespace Provenance

def toDict (x : Provenance) : Json :=
  Json.mkObj [("session_id", x.sessionId.json), ("task_id", x.taskId.json), ("source_ids", x.sourceIds.json),
    ("receipt_refs", x.receiptRefs.json), ("recovery_refs", x.recoveryRefs.json), ("receipt_proof", x.receiptProof),
    ("receipt_proof_digest", x.receiptProofDigest.json)]

/-- The provenance that a payload holds. -/
def fromDict (v : Json) : Except Err Provenance := do
  exact v ["session_id", "task_id", "source_ids", "receipt_refs", "recovery_refs", "receipt_proof",
    "receipt_proof_digest"] "context provenance"
  let sessionId ← text (v.get "session_id") "provenance.session_id" 512
  let taskId ← text (v.get "task_id") "provenance.task_id" 512
  let sourceIds ← ids (v.get "source_ids") "provenance.source_ids" maxSourceIds
  let receiptRefs ← refs (v.get "receipt_refs") "provenance.receipt_refs" maxEntryRefs
  let recoveryRefs ← refs (v.get "recovery_refs") "provenance.recovery_refs" maxEntryRefs
  exact (v.get "receipt_proof") ["schema_version", "session_id", "task_id", "plan_id", "integrity_status", "status",
    "source", "receipt_link", "recovery_ref", "output_digest"] "receipt proof"
  let receiptProofDigest ← digestValue (v.get "receipt_proof_digest") "provenance.receipt_proof_digest"
  return ⟨sessionId, taskId, sourceIds, receiptRefs, recoveryRefs, v.get "receipt_proof", receiptProofDigest⟩

end Provenance

/-- `_validate_context_provenance(state, raw_provenance, entries)`. Every way in which it fails makes the event
    incompatible. -/
def validateContextProvenance (s : State) (raw : Json) (entries : List ProjectContextEntry) : Except Failure Unit :=
  match raw with
  | .null =>
    ensure (∀ e ∈ entries, e.sessionId = none ∧ e.receiptRefs.1 = [] ∧ e.recoveryRefs.1 = []) .incompatible
  | raw => do
    let x ← projecting (Provenance.fromDict raw)
    ensure (x.sourceIds.1 ≠ [] ∧ x.receiptRefs.1 ≠ [] ∧ ∀ r ∈ x.receiptRefs.1, isReceiptRef r.1 = true) .incompatible
    ensure (Json.pyEq x.toDict raw = true) .incompatible
    match s.sessions.filter (·.sessionId = x.sessionId) with
    | [durable] =>
      ensure (durable.taskId = x.taskId ∧ ∀ i ∈ x.sourceIds.1, i ∈ durable.sourceIds.1) .incompatible
    | _ => .error .incompatible
    let proof ← projecting (receiptProof x.receiptProof x.sessionId x.taskId x.receiptProofDigest)
    ensure (x.receiptRefs.1 = [proof.receiptRef] ∧ x.recoveryRefs.1 = [proof.recoveryRef]) .incompatible
    let found ← projecting (anySourceMatches s proof x.sourceIds.1)
    ensure (found = true) .incompatible
    ensure (∀ e ∈ entries, e.sessionId = some x.sessionId ∧ e.sourceIds = x.sourceIds ∧ e.receiptRefs = x.receiptRefs ∧
      e.recoveryRefs = x.recoveryRefs) .incompatible

/-! ### Trusted sources -/

/-- An event seeded the workspace from a trusted package that holds the source. -/
def trustedSeed (anchor : SourceAnchor) (e : Event) : Bool :=
  e.kind = .workspaceSeeded && (e.payload.get "package").get "signature_state" = .str "signed_valid" &&
    (e.payload.get "admission").get "trusted_signer" = .bool true &&
    match (e.payload.get "checkpoint").get "source_anchors" with
    | .arr l => l.any (Json.pyEq anchor.toDict)
    | _ => false

/-- The receipts that an event's commit gives for a local file. -/
def evidenceOf (binding : EngineBinding) (e : Event) : List Json :=
  let provenance := e.payload.get "provenance"
  match e.kind, (provenance.get "receipt_proof"), provenance.get "receipt_refs" with
  | .contextCommitted, .obj f, .arr refs => if Json.pyEq ((Json.obj f).get "source") binding.1 then refs else []
  | _, _, _ => []

/-- `_verify_checkpoint_trust(state, sources)`. -/
def verifyCheckpointTrust (s : State) (sources : List SourceAnchor) : Except Err Unit :=
  sources.forM fun anchor =>
    if anchor.trust.level = .verified then
      match anchor.engineBinding with
      | none => .error (.incompatible "verified checkpoint source lacks instance binding")
      | some binding =>
        if s.events.any (trustedSeed anchor) then .ok ()
        else ensure (∀ r ∈ anchor.trust.evidenceRefs.1, r.json ∈ s.events.flatMap (evidenceOf binding))
          (.incompatible "verified checkpoint source lacks durable sealed evidence")
    else .ok ()

end LeanCtx
