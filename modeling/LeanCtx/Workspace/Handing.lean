import LeanCtx.Workspace.Operations

/-! Handing over: the handoff that a sender makes of a checkpoint, the admission that a receiver makes of the handoff, and the
    event that applies it. -/

namespace LeanCtx
open Json

/-! ### Parts of a logical state -/

/-- The items of a list. -/
def itemsOf (v : Json) : List Json :=
  match v with
  | .arr l => l
  | _ => []

/-- The texts of a list. -/
def textsOf (v : Json) : List Str := (itemsOf v).filterMap fun
  | .str s => some s
  | _ => none

/-- `_keyed(values, field, label)`. -/
def keyed (v : Json) (field label : String) : Except Err (List (Str × Json)) :=
  match v with
  | .arr l => l.foldlM (fun result raw =>
      match raw, raw.get field with
      | .obj _, .str key =>
        if key ∈ result.map (·.1) then .error .conflict else .ok (result ++ [(key, raw.plain)])
      | _, _ => .error (.incompatible (label ++ " item is invalid"))) []
  | _ => .error (.incompatible (label ++ " must be an array"))

/-- The values of some keys. -/
def selectKeys (keys : List Str) (items : List (Str × Json)) (missing : Err) : Except Err (List Json) :=
  keys.mapM fun k => match items.find? fun p => p.1 = k with
    | some p => .ok p.2
    | none => .error missing

/-- The last item with some texts under some keys: `{…: item for item in items}.get(…)`. -/
def lastWith (l : List Json) (keys : List (String × Json)) : Option Json :=
  l.reverse.find? fun v => keys.all fun k => v.get k.1 = k.2

/-! ### The handoff of a checkpoint -/

/-- What `create_handoff(checkpoint, target_workspace_id=…, task=…, entry_ids=…, …)` is asked for. -/
structure HandoffArguments where
  targetWorkspaceId : Uuid
  targetRole : Option (Text 128)
  task : Task (16 * 1024)
  entryIds : Texts maxHandoffEntries
  handoffId : Uuid

/-- `sorted(pins, key=…)`. -/
def sortRawPins (l : List Json) : List Json := l.insertionSort fun a b =>
  let key (v : Json) : Str ×ₗ Str ×ₗ Str :=
    let part (k : String) : Str := (textsOf (.arr [v.get k])).headD []
    toLex (part "name", toLex (part "version", part "artifact_digest"))
  key a ≤ key b

/-- `ContextHandoffV1.create(checkpoint, target_workspace_id, task, entry_ids, …)`. -/
def ContextHandoff.create (c : ContextCheckpoint) (a : HandoffArguments) (lineage : Option ForkLineage) :
    Except Err ContextHandoff := do
  let entriesById ← keyed (c.logicalState.get "entries") "entry_id" "entries"
  let entries ← selectKeys (a.entryIds.1.map Subtype.val) entriesById (.validation "handoff entry is not present in source state")
  let sourcesById ← keyed (c.logicalState.get "sources") "source_id" "sources"
  let sources ← selectKeys (sortedUnion (entries.flatMap fun e => textsOf (e.get "source_ids"))) sourcesById .conflict
  let anchors := sources.map portableAnchor
  let recovery := sortedUnion (entries.flatMap fun e => textsOf (e.get "recovery_refs"))
  let pins := sortRawPins ((itemsOf (c.logicalState.get "package_pins")).map Json.plain)
  ensure (anchors.length ≤ maxHandoffAnchors ∧ recovery.length ≤ maxHandoffRecoveryRefs) .policy
  ensure (pins.length ≤ maxHandoffPackageRefs) .policy
  let policy ← WorkspacePolicy.fromDict (c.logicalState.get "policy")
  let source ← WorkspaceStateRef.fromCheckpoint c lineage
  let recoveryRefs ← sortedUniqueText (.arr (recovery.map .str)) "recovery_refs" maxHandoffRecoveryRefs
  let base := mkObj [("schema_version", .str HandoffFields.schema), ("handoff_id", a.handoffId.json), ("source", source.toDict),
    ("target", mkObj [("workspace_id", a.targetWorkspaceId.json), ("role", optional Text.json a.targetRole)]),
    ("task", a.task.json), ("selected_entries", .arr entries), ("source_anchors", .arr anchors),
    ("recovery_refs", recoveryRefs.json), ("package_refs", .arr pins), ("required_policy_floor", policy.toDict),
    ("bounds", HandoffFields.bounds)]
  parallelRejectSensitive base
  let bytes ← canonical base
  ensure (bytes.length ≤ maxHandoffBytes) .policy
  let d ← parallelDigest "leanctx.context-handoff.v1" base
  make ⟨a.handoffId, source, a.targetWorkspaceId, a.targetRole, a.task, entries, anchors, recoveryRefs, pins, policy, d⟩

/-- `create_handoff(checkpoint, …)`. -/
def State.createHandoff (s : State) (c : ContextCheckpoint) (a : HandoffArguments) : Except Err ContextHandoff := do
  s.checkStored c
  ContextHandoff.create c a s.forkLineage

/-! ### Admission -/

/-- `lineage_ok` of `admit_handoff`, with the state of the sender where it can be read. -/
def State.admitsLineage (s : State) (sender : Option State) (h : ContextHandoff) : Bool :=
  let stored := (sender.bind fun t => t.checkpoints.get? h.source.checkpointId).any fun c =>
    c.workspaceId = h.source.workspaceId && c.stateDigest = h.source.stateDigest &&
      c.envelopeDigest = h.source.checkpointEnvelopeDigest
  let recorded := decide ((sender.bind fun t => t.forkLineage) = h.sourceLineage)
  if h.source.workspaceId = s.identity.workspaceId then stored && recorded
  else match h.sourceLineage, s.forkLineage with
    | none, some b => stored && recorded && decide (parentOf h.source b)
    | some a, some b => stored && recorded && decide (siblings a b)
    | _, none => false

/-- The evidence of an entry in the state that a reference names. -/
def entryEvidence (r : WorkspaceStateRef) (x : ProjectContextEntry) : Except Err EvidenceRef :=
  EvidenceRef.ofEntry r.workspaceId r.checkpointId r.stateDigest x

/-- The entries of a handoff that the receiver has with another content. -/
def State.handoffConflicts (s : State) (receiver : WorkspaceStateRef) (h : ContextHandoff) : Except Err (List ConflictEntry) :=
  h.selectedEntries.foldlM (fun conflicts raw => do
    let x ← ProjectContextEntry.fromDict raw
    match s.entries.reverse.find? fun y => y.entryId = x.entryId with
    | none => return conflicts
    | some current => do
      let left ← canonical current.toDict
      let right ← canonical x.toDict
      if left = right then return conflicts
      else do
        let mine ← entryEvidence receiver current
        let theirs ← entryEvidence h.source x
        let key ← parallelText x.entryId.json "stable_key" 512
        let conflict ← ConflictEntry.create (if x.category = .decisions then .decision else .projectContext) key .null
          current.toDict x.toDict [mine, theirs]
        return conflicts ++ [conflict]) []

namespace HandoffAdmission

/-- What `_evaluate_verified` finds of the target, the policy, the packages and the sources of a handoff. -/
structure Findings where
  target : Bool
  policy : Bool
  package : Bool
  sourceMissing : Bool
  sourceMismatch : Bool
  sourceUnavailable : Bool

/-- The sources of a handoff are there, the same and available. -/
def Findings.source (x : Findings) : Bool := !x.sourceMissing && !x.sourceMismatch && !x.sourceUnavailable

/-- `_evaluate_verified` up to the findings. -/
def findings (h : ContextHandoff) (c : ContextCheckpoint) (available : List Str) : Except Err Findings := do
  let policy ← WorkspacePolicy.fromDict (c.logicalState.get "policy")
  let pins := itemsOf (c.logicalState.get "package_pins")
  let pinned (pin : Json) : Bool :=
    (lastWith pins [("name", pin.get "name"), ("version", pin.get "version")]).any fun p => pyEq p pin
  let available ← sortedUniqueText (.arr (available.map .str)) "available_source_ids" maxHandoffAnchors
  let sources := itemsOf (c.logicalState.get "sources")
  let found (anchor : Json) : Option Json := lastWith sources [("source_id", anchor.get "source_id")]
  return {
    target := h.targetWorkspaceId = c.workspaceId
    policy := policy.isTightening h.requiredPolicyFloor
    package := h.packageRefs.all pinned
    sourceMissing := h.sourceAnchors.any fun a => (found a).isNone
    sourceMismatch := h.sourceAnchors.any fun a => (found a).any fun r => !pyEq (portableAnchor r) (portableAnchor a)
    sourceUnavailable := h.sourceAnchors.any fun a => (found a).isSome && a.get "source_id" ∉ available.1.map Text.json }

/-- The reasons of a decision. -/
def reasons (x : Findings) (lineageOk : Bool) (conflicts : ConflictReport) : List String :=
  (if x.target then [] else ["WRONG_TARGET"]) ++ (if lineageOk then [] else ["LINEAGE_UNVERIFIED"]) ++
    (if x.policy then [] else ["POLICY_DOWNGRADE"]) ++ (if x.package then [] else ["PACKAGE_TRUST_MISMATCH"]) ++
    (if x.sourceMismatch then ["SOURCE_MISMATCH"]
      else if x.sourceMissing || x.sourceUnavailable then ["SOURCE_UNAVAILABLE"] else []) ++
    (if conflicts.entries = [] then [] else ["CONFLICTS_PRESENT"])

/-- The decision about a handoff. -/
def decisionOf (x : Findings) (lineageOk : Bool) (conflicts : ConflictReport) : Decision :=
  if !x.target || !lineageOk || !x.policy || !x.package || x.sourceMismatch || conflicts.entries ≠ [] then .rejected
  else if x.source then .admitted
  else .degraded

/-- `_evaluate_verified(handoff, receiver_checkpoint, lineage_ok=…, conflicts=…, available_source_ids=…)`. -/
def evaluate (h : ContextHandoff) (c : ContextCheckpoint) (lineageOk : Bool) (conflicts : ConflictReport)
    (available : List Str) : Except Err HandoffAdmission := do
  let x ← findings h c available
  let reasonCodes ← sortedUniqueText (.arr ((reasons x lineageOk conflicts).map fun r => .str (Str.lit r))) "reason_codes" 16
  let target : TargetResult := if x.target then .matching else .mismatch
  let lineage : LineageResult := if lineageOk then .verified else .unverified
  let policy : PolicyResult := if x.policy then .monotonic else .downgrade
  let package : PackageResult := if x.package then .exact else .mismatch
  let source : SourceResult := if x.source then .available else if x.sourceMismatch then .mismatch else .unavailable
  let payload := mkObj [("schema_version", .str AdmissionFields.schema), ("handoff_id", h.handoffId.json),
    ("handoff_digest", h.handoffDigest.json), ("receiver_workspace_id", c.workspaceId.json),
    ("target_result", .str target.name), ("lineage_result", .str lineage.name), ("policy_result", .str policy.name),
    ("package_result", .str package.name), ("source_result", .str source.name), ("conflicts", conflicts.toDict),
    ("decision", .str (decisionOf x lineageOk conflicts).name), ("reason_codes", reasonCodes.json)]
  let d ← parallelDigest "leanctx.handoff-admission.v1" payload
  make ⟨h.handoffId, h.handoffDigest, c.workspaceId, target, lineage, policy, package, source, conflicts,
    decisionOf x lineageOk conflicts, reasonCodes, d⟩

end HandoffAdmission

/-- `admit_handoff(handoff, receiver_checkpoint)`, with the state of the sender where it can be read and the sources that this
    process has bound. -/
def State.admitHandoff (s : State) (sender : Option State) (bound : List SourceId) (h : ContextHandoff)
    (c : ContextCheckpoint) : Except Err HandoffAdmission := do
  s.checkStored c
  let lineageOk := s.admitsLineage sender h
  let receiver ← WorkspaceStateRef.fromCheckpoint c s.forkLineage
  let conflicts ← s.handoffConflicts receiver h
  let report ← ConflictReport.create none h.source receiver (if lineageOk then .exact else .unknown) conflicts
  let available := (s.sources.items.filter fun p => p.2.engineBinding.isSome || p.1 ∈ bound).map fun p => p.1.1
  HandoffAdmission.evaluate h c lineageOk report (available.insertionSort (· ≤ ·))

/-! ### Application -/

/-- The sender of a handoff as its receiver reads it: the receiver itself, or a workspace of the same root. -/
def State.senderOf (s : State) (root : Uuid → Option State) (h : ContextHandoff) : Option State :=
  if h.source.workspaceId = s.identity.workspaceId then some s else root h.source.workspaceId

/-- The error of a handoff that is rejected. -/
def rejectedHandoff (x : HandoffAdmission) : Err :=
  if Str.lit "POLICY_DOWNGRADE" ∈ x.reasonCodes.1.map Subtype.val then .policy else .conflict

/-- The payload of a handoff that is applied. -/
def handoffPayload (h : ContextHandoff) (x : HandoffAdmission) : List (String × Json) :=
  [("handoff", h.toDict), ("admission", x.toDict)]

/-- What `apply_handoff` is given beside the handoff: the receiver checkpoint, or the identifiers of the one that it takes,
    the identifier of its event, the workspaces of the root and the sources that this process has bound. -/
structure ApplyArguments where
  receiverCheckpoint : Option ContextCheckpoint
  checkpointId : Uuid
  checkpointEventId : Uuid
  eventId : Uuid
  root : Uuid → Option State
  bound : List SourceId

/-- The receiver checkpoint that a handoff is admitted against, taken first where none is given. -/
def receiverCheckpoint (workspaceId : Uuid) (files : List EventFile) (a : ApplyArguments) :
    List EventFile × Except Err ContextCheckpoint :=
  match a.receiverCheckpoint with
  | some c => (files, .ok c)
  | none => checkpointWorkspace workspaceId files a.checkpointId a.checkpointEventId

/-- `apply_handoff(handoff, receiver_checkpoint=…, event_id=…)`: the journal after it, and the receipt. -/
def applyHandoffWorkspace (workspaceId : Uuid) (files : List EventFile) (h : ContextHandoff) (a : ApplyArguments) :
    List EventFile × Except Err WorkspaceReceipt :=
  match readState workspaceId files with
  | .error err => (files, .error err)
  | .ok s =>
    match s.appliedHandoffs.get? h.handoffId with
    | some previous =>
      (files, do
        ensure (previous.handoffDigest = h.handoffDigest) .conflict
        match s.receipts.get? previous.eventId with
        | some receipt => return receipt
        | none => .error .keyError)
    | none =>
      match receiverCheckpoint workspaceId files a with
      | (files', .error err) => (files', .error err)
      | (files', .ok c) =>
        match readState workspaceId files' >>= fun t => t.admitHandoff (t.senderOf a.root h) a.bound h c with
        | .error err => (files', .error err)
        | .ok x =>
          if x.decision = .rejected then (files', .error (rejectedHandoff x))
          else
            let r := appendEvent workspaceId files' ⟨.handoffApplied, mkObj (handoffPayload h x), a.eventId, false, .ok ()⟩
            (r.1, Appended.receipt <$> r.2)

end LeanCtx
